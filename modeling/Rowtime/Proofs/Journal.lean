import Mathlib.Data.List.Nodup
import Rowtime.Proofs.World

/-!
# The journal of a run

A host is observed by another one that does the same and notes it: the statements with their
numbers and answers, the waits, and the pieces of output, taken or refused. The run on the
observed host is the run on the host itself, whatever that does: it may answer a statement in
any way, refuse any piece, and cut any wait short.

What is noted of the parts of a run follows from their results alone.
-/
namespace Rowtime

/-- What a run asks of its host: a statement, with the answer, or a wait, with whether it lasted
its whole time. -/
inductive Act where
  | statement (sql : String) (answer : Except Fault Outcome)
  | wait (lasted : Bool)

/-- What has been noted: the numbers of the statements, the acts, the output that was taken, and why
pieces of it were refused. -/
structure Journal where
  ids : List UInt64
  acts : List Act
  output : String
  refused : List String

namespace Act

/-- Whether an act is a statement. -/
def isStatement : Act → Bool
  | .statement .. => true
  | .wait _ => false

end Act

namespace Journal

/-- Nothing noted. -/
def empty : Journal := ⟨[], [], "", []⟩

/-- A statement noted. -/
def executed (j : Journal) (id : UInt64) (sql : String) (answer : Except Fault Outcome) : Journal :=
  { j with ids := j.ids ++ [id], acts := j.acts ++ [.statement sql answer] }

/-- A wait noted. -/
def waited (j : Journal) (lasted : Bool) : Journal := { j with acts := j.acts ++ [.wait lasted] }

/-- Output noted. -/
def wrote (j : Journal) (text : String) : Journal := { j with output := j.output ++ text }

/-- A refusal noted. -/
def refuse (j : Journal) (why : String) : Journal := { j with refused := j.refused ++ [why] }

/-- A piece noted. -/
def took (j : Journal) (piece : String) : Except String Unit → Journal
  | .ok () => j.wrote piece
  | .error why => j.refuse why

section
variable (j : Journal) (id : UInt64) (sql : String) (answer : Except Fault Outcome) (lasted : Bool)
  (text why : String)

@[simp] theorem acts_executed :
    (j.executed id sql answer).acts = j.acts ++ [.statement sql answer] := rfl

@[simp] theorem output_executed : (j.executed id sql answer).output = j.output := rfl

@[simp] theorem refused_executed : (j.executed id sql answer).refused = j.refused := rfl

@[simp] theorem acts_waited : (j.waited lasted).acts = j.acts ++ [.wait lasted] := rfl

@[simp] theorem output_waited : (j.waited lasted).output = j.output := rfl

@[simp] theorem refused_waited : (j.waited lasted).refused = j.refused := rfl

@[simp] theorem acts_wrote : (j.wrote text).acts = j.acts := rfl

@[simp] theorem output_wrote : (j.wrote text).output = j.output ++ text := rfl

@[simp] theorem refused_wrote : (j.wrote text).refused = j.refused := rfl

@[simp] theorem acts_refuse : (j.refuse why).acts = j.acts := rfl

@[simp] theorem refused_refuse : (j.refuse why).refused = j.refused ++ [why] := rfl

end

@[simp] theorem wrote_empty (j : Journal) : j.wrote "" = j := by rw [wrote, String.append_empty]

@[simp] theorem wrote_wrote (j : Journal) (a b : String) :
    (j.wrote a).wrote b = j.wrote (a ++ b) := by
  rw [wrote, wrote, wrote, String.append_assoc]

/-- The statements have the numbers from one on, one each, and the next number is due. -/
structure Numbered (j : Journal) (next : UInt64) : Prop where
  ids : j.ids = (List.range (j.acts.countP Act.isStatement)).map fun i => UInt64.ofNat (i + 1)
  next : next = UInt64.ofNat (j.acts.countP Act.isStatement + 1)

namespace Numbered

variable {j : Journal} {id : UInt64}

theorem empty : Journal.empty.Numbered 1 := ⟨rfl, rfl⟩

theorem executed (h : j.Numbered id) (sql : String) (answer : Except Fault Outcome) :
    (j.executed id sql answer).Numbered (id + 1) := by
  have hcount : (j.executed id sql answer).acts.countP Act.isStatement =
      j.acts.countP Act.isStatement + 1 := by
    rw [acts_executed, List.countP_append]
    rfl
  constructor
  · rw [hcount, List.range_succ, List.map_append, List.map_singleton, ← h.next, ← h.ids]
    rfl
  · rw [hcount, h.next, ← UInt64.ofNat_one, ← UInt64.ofNat_add]

theorem waited (h : j.Numbered id) (lasted : Bool) : (j.waited lasted).Numbered id := by
  have hcount : (j.waited lasted).acts.countP Act.isStatement = j.acts.countP Act.isStatement := by
    rw [acts_waited, List.countP_append]
    rfl
  exact ⟨by rw [hcount]; exact h.ids, by rw [hcount]; exact h.next⟩

theorem wrote (h : j.Numbered id) (text : String) : (j.wrote text).Numbered id := ⟨h.ids, h.next⟩

theorem refuse (h : j.Numbered id) (why : String) : (j.refuse why).Numbered id := ⟨h.ids, h.next⟩

/-- No number is used twice while there are any left. -/
theorem nodup (h : j.Numbered id) : j.ids.Nodup ∨ 2 ^ 64 ≤ j.ids.length := by
  rcases Nat.lt_or_ge j.ids.length (2 ^ 64) with hlt | hge
  · have hlength : j.ids.length = j.acts.countP Act.isStatement := by
      rw [h.ids, List.length_map, List.length_range]
    refine .inl (h.ids ▸ ?_)
    refine List.Nodup.map_on (fun a ha b hb he => ?_) List.nodup_range
    rw [List.mem_range] at ha hb
    have hvalue := congrArg UInt64.toNat he
    rw [UInt64.toNat_ofNat', UInt64.toNat_ofNat'] at hvalue
    omega
  · exact .inr hge

end Numbered

end Journal

section
variable {σ α β : Type}

/-- The host that does what another one does and notes it. -/
def Host.noted (host : Host (StateM σ)) : Host (StateM (σ × Journal)) where
  execute id sql := fun x =>
    let r := (host.execute id sql).run x.1
    (r.1, r.2, x.2.executed id sql r.1)
  write piece := fun x =>
    let r := (host.write piece).run x.1
    (r.1, r.2, x.2.took piece r.1)
  wait := fun x =>
    let r := host.wait.run x.1
    (r.1, r.2, x.2.waited r.1)

/-! ## The same run -/

/-- A computation with notes that is another one when they are left out. -/
def Mirrors (y : StateM (σ × Journal) α) (x : StateM σ α) : Prop :=
  ∀ s j, ((y.run (s, j)).1, (y.run (s, j)).2.1) = x.run s

namespace Mirrors

theorem pure (a : α) : Mirrors (pure a : StateM (σ × Journal) α) (pure a) := fun _ _ => rfl

theorem bind {y : StateM (σ × Journal) α} {x : StateM σ α} {g : α → StateM (σ × Journal) β}
    {f : α → StateM σ β} (h : Mirrors y x) (k : ∀ a, Mirrors (g a) (f a)) :
    Mirrors (y >>= g) (x >>= f) := by
  intro s j
  rw [World.run_bind, World.run_bind, ← h s j]
  exact k _ _ _

variable {host : Host (StateM σ)} {shape : Shape} {q : Sql.Query}

theorem execute (host : Host (StateM σ)) (id : UInt64) (sql : String) :
    Mirrors (host.noted.execute id sql) (host.execute id sql) := fun _ _ => rfl

theorem wait (host : Host (StateM σ)) : Mirrors host.noted.wait host.wait := fun _ _ => rfl

theorem write (host : Host (StateM σ)) (piece : String) :
    Mirrors (host.noted.write piece) (host.write piece) := fun _ _ => rfl

theorem writePieces (host : Host (StateM σ)) (ps : List String) :
    Mirrors (writePieces host.noted.write ps) (writePieces host.write ps) := by
  induction ps with
  | nil => exact pure _
  | cons p ps ih =>
      refine (write host p).bind fun r => ?_
      cases r with
      | ok u => exact ih
      | error why => exact pure _

theorem writeRows (host : Host (StateM σ)) (shape : Shape) (columns : List String)
    (rows : List Row) :
    Mirrors (writeRows host.noted.write shape columns rows)
      (writeRows host.write shape columns rows) := by
  induction rows with
  | nil => exact pure _
  | cons row rows ih =>
      refine (writePieces host _).bind fun r => ?_
      cases r with
      | ok u => exact ih.bind fun _ => pure _
      | error why => exact pure _

theorem probe (host : Host (StateM σ)) (id : UInt64) (t : TableRef) :
    Mirrors (Run.probe host.noted id t) (Run.probe host id t) := by
  refine (execute host id t.probe).bind fun r => ?_
  cases r with
  | error why => exact pure _
  | ok o =>
      dsimp only
      cases markOf o <;> exact pure _

theorem probeAll (host : Host (StateM σ)) (id : UInt64) (found : Marks) (ts : List TableRef) :
    Mirrors (Run.probeAll host.noted id found ts) (Run.probeAll host id found ts) := by
  induction ts generalizing id found with
  | nil => exact pure _
  | cons t ts ih =>
      refine (probe host id t).bind fun r => ?_
      cases r with
      | error why => exact pure _
      | ok mark => exact ih (id + 1) (found.put t mark)

theorem deliver (host : Host (StateM σ)) (shape : Shape) (id : UInt64) (sql : String) :
    Mirrors (Run.deliver host.noted shape id sql) (Run.deliver host shape id sql) := by
  refine (execute host id sql).bind fun r => ?_
  cases r with
  | error why => exact pure _
  | ok o =>
      refine (writeRows host shape o.columns o.rows).bind fun r => ?_
      obtain ⟨r, -⟩ := r
      cases r <;> exact pure _

theorem step (host : Host (StateM σ)) (shape : Shape) (q : Sql.Query) (r : Run) :
    Mirrors (Run.step host.noted shape q r) (Run.step host shape q r) := by
  obtain ⟨phase, former, id, totals⟩ := r
  cases phase with
  | first =>
      refine (probeAll host id .empty q.tables).bind fun r => ?_
      obtain ⟨marks, next⟩ := r
      cases marks with
      | error why => exact pure _
      | ok marks =>
          refine (deliver host shape next _).bind fun r => ?_
          cases r <;> exact pure _
  | idle =>
      refine (wait host).bind fun lasted => ?_
      cases lasted <;> exact pure _
  | check =>
      refine (probeAll host id .empty q.tables).bind fun r => ?_
      obtain ⟨marks, next⟩ := r
      cases marks with
      | error why => exact pure _
      | ok marks =>
          dsimp only
          split <;> exact pure _
  | changes marks pending =>
      cases pending with
      | nil => exact pure _
      | cons t pending =>
          refine (deliver host shape id _).bind fun r => ?_
          cases r with
          | error why => exact pure _
          | ok n =>
              dsimp only
              split
              · refine (wait host).bind fun lasted => ?_
                cases lasted <;> exact pure _
              · exact pure _

/-- Noting leaves the run as it is. -/
theorem steps (host : Host (StateM σ)) (shape : Shape) (q : Sql.Query) (n : Nat) (r : Run) :
    Mirrors (Run.steps host.noted shape q n r) (Run.steps host shape q n r) := by
  induction n generalizing r with
  | zero => exact pure _
  | succ n ih =>
      refine (step host shape q r).bind fun p => ?_
      cases p with
      | running r => exact ih r
      | cancelled t => exact pure _
      | failed why => exact pure _

end Mirrors

/-! ## What is noted -/

variable {host : Host (StateM σ)} {shape : Shape} {columns : List String} {s s' : σ}
  {j j' : Journal}

theorem Host.run_execute (host : Host (StateM σ)) (id : UInt64) (sql : String) (s : σ)
    (j : Journal) :
    (host.noted.execute id sql).run (s, j) =
      (((host.execute id sql).run s).1, ((host.execute id sql).run s).2,
        j.executed id sql ((host.execute id sql).run s).1) := rfl

theorem Host.run_write (host : Host (StateM σ)) (piece : String) (s : σ) (j : Journal) :
    (host.noted.write piece).run (s, j) =
      (((host.write piece).run s).1, ((host.write piece).run s).2,
        j.took piece ((host.write piece).run s).1) := rfl

theorem Host.run_wait (host : Host (StateM σ)) (s : σ) (j : Journal) :
    host.noted.wait.run (s, j) =
      ((host.wait.run s).1, (host.wait.run s).2, j.waited (host.wait.run s).1) := rfl

/-- Of pieces the whole text is noted, or what was taken before one was refused. -/
theorem writePieces_noted {ps : List String} {r : Except String Unit}
    (h : (writePieces host.noted.write ps).run (s, j) = (r, s', j')) :
    (r = .ok () ∧ j' = j.wrote (String.join ps)) ∨
      ∃ why text, r = .error why ∧ j' = (j.wrote text).refuse why := by
  induction ps generalizing s j with
  | nil =>
      cases h
      exact .inl ⟨rfl, (Journal.wrote_empty _).symm⟩
  | cons p ps ih =>
      rw [writePieces, World.run_bind, Host.run_write] at h
      generalize (host.write p).run s = x at h
      obtain ⟨answer, v⟩ := x
      cases answer with
      | error why =>
          cases h
          exact .inr ⟨why, "", rfl, by rw [Journal.wrote_empty, Journal.took]⟩
      | ok u =>
          rcases ih h with ⟨hr, rfl⟩ | ⟨why, text, hr, rfl⟩
          · exact .inl ⟨hr, by rw [Journal.took, Journal.wrote_wrote, String.join_cons]⟩
          · exact .inr ⟨why, p ++ text, hr, by rw [Journal.took, Journal.wrote_wrote]⟩

/-- Of rows the lines are noted, or what was taken before a piece was refused. -/
theorem writeRows_noted {rows : List Row} {r : Except String Nat × List Row}
    (h : (writeRows host.noted.write shape columns rows).run (s, j) = (r, s', j')) :
    (r.1 = .ok rows.length ∧ j' = j.wrote (String.join (rows.map (shape.line columns)))) ∨
      ∃ why text, r.1 = .error why ∧ j' = (j.wrote text).refuse why := by
  induction rows generalizing s s' j j' r with
  | nil =>
      cases h
      exact .inl ⟨rfl, (Journal.wrote_empty _).symm⟩
  | cons row rows ih =>
      rw [writeRows, World.run_bind] at h
      generalize hx : (writePieces host.noted.write (shape.linePieces columns row)).run (s, j) = x
        at h
      obtain ⟨answer, v, k⟩ := x
      rcases writePieces_noted hx with ⟨rfl, rfl⟩ | ⟨why, text, rfl, rfl⟩
      · simp only [World.run_bind] at h
        generalize hy : (writeRows host.noted.write shape columns rows).run
          (v, j.wrote (String.join (shape.linePieces columns row))) = y at h
        obtain ⟨⟨count, rest⟩, v', k'⟩ := y
        cases h
        rcases ih hy with ⟨rfl, rfl⟩ | ⟨why, text, rfl, rfl⟩
        · refine .inl ⟨rfl, ?_⟩
          rw [Journal.wrote_wrote, World.join_linePieces, List.map_cons, String.join_cons]
        · exact .inr ⟨why, _, rfl, by rw [Journal.wrote_wrote]⟩
      · cases h
        exact .inr ⟨why, text, rfl, rfl⟩

namespace Run

/-- The statement of a probe is noted, and a mark is read off its answer unless that is an error or
has none. -/
theorem probe_noted {id : UInt64} {t : TableRef} {r : Except FollowFault Int64}
    (h : (probe host.noted id t).run (s, j) = (r, s', j')) :
    ∃ answer, j' = j.executed id t.probe answer ∧
      ((∃ o mark, answer = .ok o ∧ markOf o = .ok mark ∧ r = .ok mark) ∨
        ∃ why, r = .error (.probe t.name why) ∧
          (answer = .error why ∨ ∃ o, answer = .ok o ∧ markOf o = .error why)) := by
  rw [probe, World.run_bind, Host.run_execute] at h
  refine ⟨((host.execute id t.probe).run s).1, ?_⟩
  generalize (host.execute id t.probe).run s = x at h
  obtain ⟨answer, v⟩ := x
  cases answer with
  | error why =>
      cases h
      exact ⟨rfl, .inr ⟨why, rfl, .inl rfl⟩⟩
  | ok o =>
      simp only at h
      generalize hm : markOf o = m at h
      cases m with
      | error why =>
          cases h
          exact ⟨rfl, .inr ⟨why, rfl, .inr ⟨o, rfl, hm⟩⟩⟩
      | ok mark =>
          cases h
          exact ⟨rfl, .inl ⟨o, mark, rfl, hm, rfl⟩⟩

/-- A statement is noted with the lines of its rows, or it is answered by an error, or a piece of a
line is refused. -/
theorem deliver_noted {id : UInt64} {sql : String} {r : Except FollowFault Nat}
    (h : (deliver host.noted shape id sql).run (s, j) = (r, s', j')) :
    (∃ o, r = .ok o.rows.length ∧
        j' = (j.executed id sql (.ok o)).wrote
          (String.join (o.rows.map (shape.line o.columns)))) ∨
      (∃ why, r = .error (.execution why) ∧ j' = j.executed id sql (.error why)) ∨
      ∃ o why text, r = .error (.output why) ∧
        j' = ((j.executed id sql (.ok o)).wrote text).refuse why := by
  rw [deliver, World.run_bind, Host.run_execute] at h
  generalize (host.execute id sql).run s = x at h
  obtain ⟨answer, v⟩ := x
  cases answer with
  | error why =>
      cases h
      exact .inr (.inl ⟨why, rfl, rfl⟩)
  | ok o =>
      simp only [World.run_bind] at h
      generalize hy : (writeRows host.noted.write shape o.columns o.rows).run
        (v, j.executed id sql (.ok o)) = y at h
      obtain ⟨⟨count, rest⟩, v', k⟩ := y
      rcases writeRows_noted hy with ⟨rfl, rfl⟩ | ⟨why, text, rfl, rfl⟩
      · cases h
        exact .inl ⟨o, rfl, rfl⟩
      · cases h
        exact .inr (.inr ⟨o, why, text, rfl, rfl⟩)

end Run

end

end Rowtime
