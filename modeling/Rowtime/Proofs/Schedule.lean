import Rowtime.Proofs.Journal
import Rowtime.Proofs.Lines
import Rowtime.Proofs.Observed

/-!
# The schedule of a run

What a run may do is told by lists of deeds, without its steps: a first round and then checks,
each followed by a wait or by a round of changes. In what was answered the marks are read, and
by the marks and the rows it is settled what comes next.

Whatever its host does, a run keeps to such a list: it has done a beginning of one; or a wait
was cut short, where the list has a wait; or it failed at a statement that the list has.
-/
namespace Rowtime

open Sql

/-- Something that a run does while all goes well. -/
inductive Deed where
  | probed (t : TableRef) (answer : Outcome)
  | began
  | sent (sql : String) (answer : Outcome)
  | waited

namespace Deed

/-- What is asked of the host; nothing, when a round begins. -/
def act? : Deed → Option Act
  | probed t o => some (.statement t.probe (.ok o))
  | began => none
  | sent sql o => some (.statement sql (.ok o))
  | waited => some (.wait true)

/-- No wait of a schedule is cut short. -/
theorem not_mem_acts (ds : List Deed) : .wait false ∉ ds.filterMap act? := by
  intro h
  obtain ⟨d, -, hd⟩ := List.mem_filterMap.mp h
  cases d <;> simp [act?] at hd

/-- The statement that is executed. -/
def sql? : Deed → Option String
  | probed t _ => some t.probe
  | sent sql _ => some sql
  | _ => none

/-- What makes a run fail at a deed: the answer to its statement is an error, or no mark can be read
off it, or a piece of its rows is refused. -/
def Fails (answer : Except Fault Outcome) (refused : List String) (why : FollowFault) : Deed → Prop
  | probed t _ => refused = [] ∧ ∃ fault, why = .probe t.name fault ∧
      (answer = .error fault ∨ ∃ o, answer = .ok o ∧ markOf o = .error fault)
  | sent _ _ => (refused = [] ∧ ∃ fault, why = .execution fault ∧ answer = .error fault) ∨
      ∃ o reason, refused = [reason] ∧ why = .output reason ∧ answer = .ok o
  | _ => False

/-- The lines that are written. -/
def lines (shape : Shape) : Deed → List String
  | sent _ o => o.rows.map fun row => (shape.record o.columns row).text
  | _ => []

/-- The output that is written. -/
def text (shape : Shape) : Deed → String
  | sent _ o => String.join (o.rows.map (shape.line o.columns))
  | _ => ""

/-- Whether a round begins. -/
def begins : Deed → Bool
  | began => true
  | _ => false

/-- Whether a query is run. -/
def sends : Deed → Bool
  | sent .. => true
  | _ => false

/-- The counts with a deed more. -/
def counted (t : Totals) : Deed → Totals
  | began => t.addRound
  | sent _ o => t.addQuery o.rows.length
  | _ => t

end Deed

/-- The counts of some deeds. -/
def tally (ds : List Deed) : Totals := ds.foldl Deed.counted .zero

theorem tally_append (ds es : List Deed) : tally (ds ++ es) = es.foldl Deed.counted (tally ds) :=
  List.foldl_append

/-- The counts are those of the rounds begun, the queries run and the lines written. -/
theorem tally_eq (shape : Shape) (ds : List Deed) :
    tally ds = ⟨.ofNat (ds.countP Deed.begins), .ofNat (ds.countP Deed.sends),
      .ofNat (ds.flatMap (Deed.lines shape)).length⟩ := by
  induction ds using List.reverseRecOn with
  | nil => rfl
  | append_singleton ds d ih =>
      rw [tally_append, ih, List.countP_append, List.countP_append, List.flatMap_append,
        List.length_append]
      cases d <;> simp [Deed.counted, Totals.addRound, Totals.addQuery, Deed.begins, Deed.sends,
        Deed.lines, UInt64.ofNat_add]

/-- The complete lines of the output are those that the deeds write. -/
theorem linesFrom_texts (shape : Shape) (ds : List Deed) :
    Sink.linesFrom [] (String.join (ds.map (Deed.text shape))).toList =
      ds.flatMap (Deed.lines shape) := by
  induction ds with
  | nil => rfl
  | cons d ds ih =>
      rw [List.map_cons, String.join_cons, String.toList_append, List.flatMap_cons]
      cases d with
      | sent sql o => rw [Deed.text, Sink.linesFrom_rows_append, ih, Deed.lines]
      | probed t o => exact ih
      | began => exact ih
      | waited => exact ih

/-! ## Probes -/

/-- An answer without rows. -/
def Outcome.blank : Outcome := ⟨[], [], .select 0⟩

/-- The deeds of probes that give the marks. -/
def Probes (es : List (TableRef × Int64)) (ps : List Deed) : Prop :=
  List.Forall₂ (fun e d => ∃ o, markOf o = .ok e.2 ∧ d = .probed e.1 o) es ps

namespace Probes

variable {es : List (TableRef × Int64)} {ps : List Deed}

/-- Nothing is counted for probes. -/
theorem counted (h : Probes es ps) (t : Totals) : ps.foldl Deed.counted t = t := by
  induction h with
  | nil => rfl
  | cons hd _ ih =>
      obtain ⟨o, -, rfl⟩ := hd
      exact ih

/-- Nothing is written by probes. -/
theorem text (h : Probes es ps) (shape : Shape) : String.join (ps.map (Deed.text shape)) = "" := by
  induction h with
  | nil => rfl
  | cons hd _ ih =>
      obtain ⟨o, -, rfl⟩ := hd
      rw [List.map_cons, String.join_cons, ih]
      rfl

/-- Every probe is a statement. -/
theorem length_acts (h : Probes es ps) : (ps.filterMap Deed.act?).length = es.length := by
  induction h with
  | nil => rfl
  | cons hd _ ih =>
      obtain ⟨o, -, rfl⟩ := hd
      rw [List.filterMap_cons, Deed.act?]
      exact congrArg (· + 1) ih

/-- An answer without rows gives the mark zero, so probes can always be completed. -/
theorem complete (h : Probes es ps) (ts : List TableRef) :
    ∃ es' ps', es'.map (·.1) = ts ∧ Probes (es ++ es') (ps ++ ps') ∧
      ps' = ts.map fun t => .probed t .blank := by
  refine ⟨ts.map (·, 0), _, by simp [Function.comp_def], List.rel_append h ?_, rfl⟩
  induction ts with
  | nil => exact .nil
  | cons t ts ih => exact .cons ⟨_, rfl, rfl⟩ ih

end Probes

/-! ## Schedules -/

/-- A query is run within marks; if it finds no rows, a wait follows. -/
def Sql.Query.delivery (q : Query) (marks : Marks) (a : Option Advance) (o : Outcome) : List Deed :=
  .sent (q.bounded marks a).display o :: if o.rows = [] then [.waited] else []

/-- The queries of a round of changes for tables with their former marks, and what they find. -/
def Sql.Query.changes (q : Query) (marks : Marks) (former : List (TableRef × Int64))
    (os : List Outcome) : List Deed :=
  (former.zip os).flatMap fun x => q.delivery marks (some ⟨x.1.1, x.1.2⟩) x.2

theorem Sql.Query.changes_concat (q : Query) (marks : Marks) {done : List (TableRef × Int64)}
    {os : List Outcome} (h : os.length = done.length) (e : TableRef × Int64) (o : Outcome) :
    q.changes marks (done ++ [e]) (os ++ [o]) =
      q.changes marks done os ++ q.delivery marks (some ⟨e.1, e.2⟩) o := by
  rw [changes, List.zip_append h.symm, List.flatMap_append]
  simp [changes]

/-- Lists of deeds that end with a round, or with a check that finds nothing new and the wait behind
it, and the marks of the last round. -/
inductive Schedule (q : Query) : Marks → List Deed → Prop
  /-- The first round. -/
  | first {marks : Marks} {ps : List Deed} (hm : marks.entries.map (·.1) = q.tables)
      (hp : Probes marks.entries ps) (o : Outcome) :
      Schedule q marks (ps ++ .began :: q.delivery marks none o)
  /-- No mark has changed. -/
  | same {former : Marks} {ds ps : List Deed} (h : Schedule q former ds)
      (hp : Probes former.entries ps) : Schedule q former (ds ++ (ps ++ [.waited]))
  /-- A mark has changed. -/
  | changed {former marks : Marks} {ds ps : List Deed} {os : List Outcome}
      (h : Schedule q former ds) (hm : marks.entries.map (·.1) = q.tables)
      (hp : Probes marks.entries ps) (hne : marks ≠ former)
      (ho : os.length = former.entries.length) :
      Schedule q marks (ds ++ (ps ++ .began :: q.changes marks former.entries os))

/-- A list of deeds that has begun as a schedule does. -/
def Begun (q : Query) (ds : List Deed) : Prop := ∃ marks more, Schedule q marks (ds ++ more)

namespace Schedule

variable {q : Query} {former marks : Marks} {ds ps : List Deed} {es : List (TableRef × Int64)}

theorem tables (h : Schedule q marks ds) : marks.entries.map (·.1) = q.tables := by
  induction h with
  | first hm hp o => exact hm
  | same h hp ih => exact ih
  | changed h hm hp hne ho ih => exact hm

theorem begun (h : Schedule q marks ds) : Begun q ds := ⟨marks, [], by rwa [List.append_nil]⟩

end Schedule

namespace Begun

variable {q : Query} {former marks : Marks} {ds ps : List Deed} {es : List (TableRef × Int64)}

theorem of_append {more : List Deed} (h : Begun q (ds ++ more)) : Begun q ds := by
  obtain ⟨marks, rest, h⟩ := h
  exact ⟨marks, more ++ rest, by rwa [List.append_assoc] at h⟩

/-- A round can be finished, whatever its queries have found. -/
theorem changes (h : Schedule q former ds) (hm : marks.entries.map (·.1) = q.tables)
    (hp : Probes marks.entries ps) (hne : marks ≠ former) {done rest : List (TableRef × Int64)}
    (hd : former.entries = done ++ rest) {os : List Outcome} (ho : os.length = done.length) :
    Begun q (ds ++ (ps ++ .began :: q.changes marks done os)) := by
  have hlength : (os ++ rest.map fun _ => Outcome.blank).length = former.entries.length := by
    rw [List.length_append, List.length_map, ho, hd, List.length_append]
  have hsplit := Schedule.changed h hm hp hne hlength
  rw [hd, Query.changes, List.zip_append ho.symm, List.flatMap_append, ← List.cons_append,
    ← List.append_assoc, ← List.append_assoc] at hsplit
  rw [← List.append_assoc]
  exact hsplit.begun.of_append

/-- Behind a schedule the tables are probed, and so they are at the beginning. -/
theorem probes (h : ds = [] ∨ ∃ former, Schedule q former ds)
    (hm : marks.entries.map (·.1) = q.tables) (hp : Probes marks.entries ps) :
    Begun q (ds ++ ps) := by
  obtain rfl | ⟨former, h⟩ := h
  · exact (Schedule.first hm hp .blank).begun.of_append
  · by_cases he : marks = former
    · subst he
      have := (h.same hp).begun
      rw [← List.append_assoc] at this
      exact this.of_append
    · have hnone : ([] : List Outcome).length = ([] : List (TableRef × Int64)).length := rfl
      have := changes h hm hp he (List.nil_append _).symm hnone
      rw [← List.append_assoc] at this
      exact this.of_append

/-- The next table is probed. -/
theorem probe (h : ds = [] ∨ ∃ former, Schedule q former ds) (hp : Probes es ps) {t : TableRef}
    {rest : List TableRef} (ht : q.tables = es.map (·.1) ++ t :: rest) :
    Begun q (ds ++ ps ++ [.probed t .blank]) := by
  obtain ⟨es', ps', hes', hps, rfl⟩ := hp.complete (t :: rest)
  have hm : (Marks.mk (es ++ es')).entries.map (·.1) = q.tables := by
    rw [ht, ← hes', List.map_append]
  have hall := probes h hm hps
  rw [List.map_cons, ← List.append_assoc, ← List.singleton_append, ← List.append_assoc] at hall
  exact hall.of_append

end Begun

/-! ## Marks of the same tables -/

namespace Marks

/-- A mark is found under its table, where the tables differ. -/
theorem get?_of_apart {m : Marks} {done rest : List (TableRef × Int64)} {t : TableRef}
    {mark : Int64} (ha : TableRef.Apart (m.entries.map (·.1)))
    (h : m.entries = done ++ (t, mark) :: rest) : m.get? t = some mark := by
  have hbefore : ∀ e ∈ done, e.1.same t = false := by
    intro e he
    rw [h, List.map_append, List.map_cons] at ha
    exact (List.pairwise_append.mp ha).2.2 e.1 (List.mem_map_of_mem he) t List.mem_cons_self
  have hfind : done.find? (fun e => e.1.same t) = none :=
    List.find?_eq_none.mpr fun e he => by simp [hbefore e he]
  rw [get?, h, List.find?_append, hfind]
  simp

theorem zip_all_same {as bs : List (TableRef × Int64)} (h : as.map (·.1) = bs.map (·.1)) :
    (as.zip bs).all (fun p => p.1.1.same p.2.1 && p.1.2 == p.2.2) = true ↔ as = bs := by
  induction as generalizing bs with
  | nil =>
      cases bs with
      | nil => simp
      | cons b bs => simp at h
  | cons a as ih =>
      cases bs with
      | nil => simp at h
      | cons b bs =>
          rw [List.map_cons, List.map_cons, List.cons.injEq] at h
          rw [List.zip_cons_cons, List.all_cons, Bool.and_eq_true, ih h.2, List.cons.injEq,
            Prod.ext_iff, h.1, TableRef.same_refl, Bool.true_and, beq_iff_eq]
          simp

/-- Marks of the same tables are the same exactly if no mark differs. -/
theorem same_iff {a b : Marks} (h : a.entries.map (·.1) = b.entries.map (·.1)) :
    a.same b = true ↔ a = b := by
  have hlength : a.entries.length = b.entries.length := by simpa using congrArg List.length h
  rw [same, sameBy, hlength, beq_self_eq_true, Bool.true_and, zip_all_same h]
  obtain ⟨as⟩ := a
  obtain ⟨bs⟩ := b
  rw [Marks.mk.injEq]

end Marks

/-! ## Steps -/

/-- How many steps may still come without an act. -/
def Phase.credit : Phase → Nat
  | .first => 0
  | .idle => 0
  | .check => 1
  | .changes _ _ => 2

/-- Where a run stands in a schedule. -/
inductive Placed (q : Query) : Phase → Marks → List Deed → Prop
  | first {former : Marks} : Placed q .first former []
  /-- A wait is next. -/
  | idle {former : Marks} {ds : List Deed} (h : Schedule q former (ds ++ [.waited])) :
      Placed q .idle former ds
  | check {former : Marks} {ds : List Deed} (h : Schedule q former ds) : Placed q .check former ds
  /-- Some tables have had their query. -/
  | changes {former marks : Marks} {ds ps : List Deed} {done rest : List (TableRef × Int64)}
      {os : List Outcome} {pending : List TableRef} (h : Schedule q former ds)
      (hm : marks.entries.map (·.1) = q.tables) (hp : Probes marks.entries ps)
      (hne : marks ≠ former) (hd : former.entries = done ++ rest) (ho : os.length = done.length)
      (hrest : rest.map (·.1) = pending) :
      Placed q (.changes marks pending) former (ds ++ (ps ++ .began :: q.changes marks done os))

namespace Placed

variable {q : Query} {former marks : Marks} {ds : List Deed}

theorem begun {phase : Phase} (h : Placed q phase former ds) : Begun q ds := by
  cases h with
  | first =>
      obtain ⟨es, ps, hm, hp, -⟩ := Probes.complete .nil q.tables
      exact (Begun.probes (.inl rfl) hm hp : Begun q ([] ++ ps)).of_append
  | idle h => exact h.begun.of_append
  | check h => exact h.begun
  | changes h hm hp hne hd ho _ => exact .changes h hm hp hne hd ho

theorem nothing (h : Placed q .first former ds) : ds = [] := by
  cases h
  rfl

theorem waiting (h : Placed q .idle former ds) : Schedule q former (ds ++ [.waited]) := by
  cases h with
  | idle h => exact h

theorem checking (h : Placed q .check former ds) : Schedule q former ds := by
  cases h with
  | check h => exact h

/-- Where a table of a round of changes is next, its former mark is known, and the round goes on
behind its query, whatever that finds. -/
theorem next {t : TableRef} {pending : List TableRef}
    (h : Placed q (.changes marks (t :: pending)) former ds) :
    ∃ mark, former.get? t = some mark ∧ ∀ o, Placed q (.changes marks pending) former
      (ds ++ q.delivery marks (some ⟨t, mark⟩) o) := by
  cases h with
  | @changes _ _ ds₀ ps done rest os _ h hm hp hne hd ho hrest =>
      obtain ⟨⟨u, mark⟩, rest, rfl, rfl, hpending⟩ := List.map_eq_cons_iff.mp hrest
      have ha : TableRef.Apart (former.entries.map (·.1)) := by
        rw [h.tables]
        exact TableRef.apart_distinct q.occurrences
      refine ⟨mark, Marks.get?_of_apart ha hd, fun o => ?_⟩
      rw [List.append_assoc, List.append_assoc, List.cons_append, ← Query.changes_concat q marks ho]
      have hsplit : former.entries = (done ++ [(u, mark)]) ++ rest := by
        rw [hd, List.append_assoc, List.singleton_append]
      refine .changes h hm hp hne hsplit ?_ hpending
      rw [List.length_append, List.length_append, ho]
      rfl

/-- Where no table is next, the round is finished. -/
theorem finished (h : Placed q (.changes marks []) former ds) : Schedule q marks ds := by
  cases h with
  | changes h hm hp hne hd ho hrest =>
      rw [List.map_eq_nil_iff.mp hrest, List.append_nil] at hd
      rw [← hd] at ho ⊢
      exact h.changed hm hp hne ho

end Placed

/-- A run that has taken `n` steps and done what a journal says. -/
structure Standing (shape : Shape) (q : Query) (n : Nat) (r : Run) (ds : List Deed) (j : Journal) :
    Prop where
  placed : Placed q r.phase r.former ds
  acts : j.acts = ds.filterMap Deed.act?
  output : j.output = String.join (ds.map (Deed.text shape))
  accepted : j.refused = []
  numbered : j.Numbered r.nextId
  totals : r.totals = tally ds
  paced : n + r.phase.credit ≤ 2 * j.acts.length

/-- What a journal says of a run that has taken `n` steps, or fewer if it has ended. -/
def Journal.Tells (j : Journal) (shape : Shape) (q : Query) (n : Nat) : Progress → Prop
  | .running r => ∃ ds, Standing shape q n r ds j
  | .cancelled t => ∃ ds, Begun q (ds ++ [.waited]) ∧
      j.acts = ds.filterMap Deed.act? ++ [.wait false] ∧
      j.output = String.join (ds.map (Deed.text shape)) ∧ j.refused = [] ∧ t = tally ds ∧
      ∃ id, j.Numbered id
  | .failed why => ∃ ds d sql answer, Begun q (ds ++ [d]) ∧ d.sql? = some sql ∧
      j.acts = ds.filterMap Deed.act? ++ [.statement sql answer] ∧ d.Fails answer j.refused why ∧
      ∃ id, j.Numbered id

theorem Journal.Tells.numbered {j : Journal} {shape : Shape} {q : Query} {n : Nat} {p : Progress}
    (h : j.Tells shape q n p) : ∃ id, j.Numbered id := by
  cases p with
  | running r =>
      obtain ⟨ds, hs⟩ := h
      exact ⟨_, hs.numbered⟩
  | cancelled t =>
      obtain ⟨ds, -, -, -, -, -, hnumbered⟩ := h
      exact hnumbered
  | failed why =>
      obtain ⟨ds, d, sql, answer, -, -, -, -, hnumbered⟩ := h
      exact hnumbered

section
variable {σ : Type} {host : Host (StateM σ)} {shape : Shape} {q : Query} {s s' : σ} {j j' : Journal}
  {r r' : Run} {ds : List Deed} {n : Nat} {p : Progress}

/-- The deeds of a step are put behind those before. -/
theorem Standing.step (h : Standing shape q n r ds j) (more : List Deed)
    (placed : Placed q r'.phase r'.former (ds ++ more))
    (acts : j'.acts = j.acts ++ more.filterMap Deed.act?)
    (output : j'.output = j.output ++ String.join (more.map (Deed.text shape)))
    (accepted : j'.refused = j.refused) (numbered : j'.Numbered r'.nextId)
    (totals : r'.totals = more.foldl Deed.counted r.totals)
    (paced : r'.phase.credit + 1 ≤ r.phase.credit + 2 * (more.filterMap Deed.act?).length) :
    Standing shape q (n + 1) r' (ds ++ more) j' := by
  refine ⟨placed, ?_, ?_, accepted.trans h.accepted, numbered, ?_, ?_⟩
  · rw [acts, h.acts, List.filterMap_append]
  · rw [output, h.output, List.map_append, String.join_append]
  · rw [totals, h.totals, tally_append]
  · have := h.paced
    rw [acts, List.length_append]
    omega

/-- A run that is cut short in the wait behind some deeds more. -/
theorem Standing.cancelled (h : Standing shape q n r ds j) (more : List Deed) {t : Totals}
    (begun : Begun q (ds ++ more ++ [.waited]))
    (acts : j'.acts = j.acts ++ more.filterMap Deed.act? ++ [.wait false])
    (output : j'.output = j.output ++ String.join (more.map (Deed.text shape)))
    (accepted : j'.refused = j.refused) {id : UInt64} (numbered : j'.Numbered id)
    (totals : t = more.foldl Deed.counted r.totals) :
    j'.Tells shape q (n + 1) (.cancelled t) := by
  refine ⟨ds ++ more, begun, ?_, ?_, accepted.trans h.accepted, ?_, id, numbered⟩
  · rw [acts, h.acts, List.filterMap_append]
  · rw [output, h.output, List.map_append, String.join_append]
  · rw [totals, h.totals, tally_append]

/-- A run that fails at a statement behind some deeds more. -/
theorem Standing.failed (h : Standing shape q n r ds j) {more : List Deed} {d : Deed}
    (begun : Begun q (ds ++ more ++ [d])) {sql : String} (hd : d.sql? = some sql)
    {answer : Except Fault Outcome}
    (acts : j'.acts = j.acts ++ more.filterMap Deed.act? ++ [.statement sql answer])
    {id : UInt64} (numbered : j'.Numbered id) {why : FollowFault}
    (fails : d.Fails answer j'.refused why) : j'.Tells shape q (n + 1) (.failed why) := by
  refine ⟨ds ++ more, d, sql, answer, begun, hd, ?_, fails, id, numbered⟩
  rw [acts, h.acts, List.filterMap_append]

namespace Run

/-- Tables are probed in their order up to the first that fails. -/
theorem probeAll_noted {ts : List TableRef} {found : Marks}
    (ha : TableRef.Apart (found.entries.map (·.1) ++ ts)) {id id' : UInt64} (hj : j.Numbered id)
    {x : Except FollowFault Marks}
    (h : (probeAll host.noted id found ts).run (s, j) = ((x, id'), s', j')) :
    j'.output = j.output ∧ j'.refused = j.refused ∧ j'.Numbered id' ∧ ∃ es ps, Probes es ps ∧
      match x with
      | .ok marks => marks.entries = found.entries ++ es ∧ es.map (·.1) = ts ∧
          j'.acts = j.acts ++ ps.filterMap Deed.act?
      | .error why => ∃ t rest answer, ts = es.map (·.1) ++ t :: rest ∧
          j'.acts = j.acts ++ ps.filterMap Deed.act? ++ [.statement t.probe answer] ∧
          (Deed.probed t .blank).Fails answer [] why := by
  induction ts generalizing found s j id with
  | nil =>
      cases h
      exact ⟨rfl, rfl, hj, [], [], .nil, by simp, rfl, by simp⟩
  | cons t ts ih =>
      rw [probeAll, World.run_bind] at h
      generalize hx : (probe host.noted id t).run (s, j) = y at h
      obtain ⟨mark, v, k⟩ := y
      obtain ⟨answer, rfl, ⟨o, mark, rfl, ho, rfl⟩ | ⟨why, rfl, hwhy⟩⟩ := probe_noted hx
      · have hput : (found.put t mark).entries = found.entries ++ [(t, mark)] := by
          refine Marks.putEntry_new fun e he => ?_
          exact (List.pairwise_append.mp ha).2.2 e.1 (List.mem_map_of_mem he) t (by simp)
        have ha' : TableRef.Apart ((found.put t mark).entries.map (·.1) ++ ts) := by
          rw [hput, List.map_append, List.append_assoc]
          exact ha
        obtain ⟨houtput, hrefused, hnumbered, es, ps, hp, htell⟩ :=
          ih ha' (hj.executed t.probe (.ok o)) h
        refine ⟨houtput, hrefused, hnumbered, (t, mark) :: es, .probed t o :: ps,
          .cons ⟨o, ho, rfl⟩ hp, ?_⟩
        cases x with
        | ok marks =>
            obtain ⟨hentries, hts, hacts⟩ := htell
            refine ⟨?_, ?_, ?_⟩
            · rw [hentries, hput, List.append_assoc, List.singleton_append]
            · rw [List.map_cons, hts]
            · rw [hacts, Journal.acts_executed, List.append_assoc]
              rfl
        | error why =>
            obtain ⟨u, rest, answer, rfl, hacts, hwhy⟩ := htell
            refine ⟨u, rest, answer, rfl, ?_, hwhy⟩
            rw [hacts, Journal.acts_executed, List.append_assoc j.acts]
            rfl
      · cases h
        exact ⟨rfl, rfl, hj.executed t.probe answer, [], [], .nil, t, ts, answer, rfl, by simp, rfl,
          why, rfl, hwhy⟩

/-- The tables of a query are probed behind a schedule, or at the beginning: a mark is found for
each, or the run fails. -/
theorem probeAll_tells (hs : Standing shape q n r ds j)
    (hds : ds = [] ∨ ∃ former, Schedule q former ds) {x : Except FollowFault Marks}
    {id : UInt64}
    (h : (probeAll host.noted r.nextId .empty q.tables).run (s, j) = ((x, id), s', j')) :
    match x with
    | .ok marks => j'.output = j.output ∧ j'.refused = j.refused ∧ j'.Numbered id ∧
        marks.entries.map (·.1) = q.tables ∧
        ∃ ps, Probes marks.entries ps ∧ j'.acts = j.acts ++ ps.filterMap Deed.act?
    | .error why => j'.Tells shape q (n + 1) (.failed why) := by
  have ha : TableRef.Apart (Marks.empty.entries.map (·.1) ++ q.tables) :=
    TableRef.apart_distinct q.occurrences
  obtain ⟨houtput, hrefused, hnumbered, es, ps, hp, htell⟩ := probeAll_noted ha hs.numbered h
  cases x with
  | ok marks =>
      obtain ⟨hentries, hts, hacts⟩ := htell
      obtain rfl : marks.entries = es := hentries
      exact ⟨houtput, hrefused, hnumbered, hts, ps, hp, hacts⟩
  | error why =>
      obtain ⟨t, rest, answer, hts, hacts, hfails⟩ := htell
      rw [← hs.accepted, ← hrefused] at hfails
      exact hs.failed (.probe hds hp hts) rfl hacts hnumbered hfails

/-- A scheduled statement is run behind some deeds more: its rows are written, or the run fails. -/
theorem deliver_tells (hs : Standing shape q n r ds j) {more : List Deed} {k k' : Journal}
    {v v' : σ} {id : UInt64} {sql : String} {count : Except FollowFault Nat}
    (acts : k.acts = j.acts ++ more.filterMap Deed.act?) (accepted : k.refused = j.refused)
    (numbered : k.Numbered id) (begun : Begun q (ds ++ more ++ [.sent sql .blank]))
    (h : (deliver host.noted shape id sql).run (v, k) = (count, v', k')) :
    match count with
    | .ok c => ∃ o, c = o.rows.length ∧ k' = (k.executed id sql (.ok o)).wrote
        (String.join (o.rows.map (shape.line o.columns)))
    | .error why => k'.Tells shape q (n + 1) (.failed why) := by
  have hnone : k.refused = [] := accepted.trans hs.accepted
  rcases deliver_noted h with ⟨o, rfl, rfl⟩ | ⟨why, rfl, rfl⟩ | ⟨o, why, text, rfl, rfl⟩
  · exact ⟨o, rfl, rfl⟩
  · refine hs.failed begun rfl ?_ (numbered.executed sql _) (.inl ⟨hnone, why, rfl, rfl⟩)
    rw [Journal.acts_executed, acts]
  · refine hs.failed begun rfl ?_ (((numbered.executed sql _).wrote text).refuse why)
      (.inr ⟨o, why, ?_, rfl, rfl⟩)
    · rw [Journal.acts_refuse, Journal.acts_wrote, Journal.acts_executed, acts]
    · rw [Journal.refused_refuse, Journal.refused_wrote, Journal.refused_executed, hnone]
      rfl

/-- The first round. -/
theorem firstRound_tells (hs : Standing shape q n r ds j) (hr : r.phase = .first)
    (h : (firstRound host.noted shape q r).run (s, j) = (p, s', j')) :
    j'.Tells shape q (n + 1) p := by
  obtain rfl := (hr ▸ hs.placed : Placed q .first _ _).nothing
  rw [firstRound, World.run_bind] at h
  generalize hx : (probeAll host.noted r.nextId .empty q.tables).run (s, j) = x at h
  obtain ⟨⟨marks, id⟩, v, k⟩ := x
  have hprobes := probeAll_tells hs (.inl rfl) hx
  cases marks with
  | error why =>
      cases h
      exact hprobes
  | ok marks =>
      obtain ⟨houtput, hrefused, hnumbered, hm, ps, hp, hacts⟩ := hprobes
      simp only [World.run_bind] at h
      generalize hsql : (q.bounded marks none).display = sql at h
      have hlist := Schedule.first hm hp
      simp only [Query.delivery, hsql] at hlist
      generalize hy : (deliver host.noted shape id sql).run (v, k) = y at h
      obtain ⟨count, v', k'⟩ := y
      have hacts' : k.acts = j.acts ++ (ps ++ [Deed.began]).filterMap Deed.act? := by
        rw [hacts, List.filterMap_append]
        simp [Deed.act?]
      have hbegun : Begun q ([] ++ (ps ++ [.began]) ++ [.sent sql .blank] ++ [.waited]) := by
        rw [List.nil_append, List.append_assoc, List.append_assoc]
        exact (hlist .blank).begun
      have hdeliver := deliver_tells hs hacts' hrefused hnumbered hbegun.of_append hy
      cases count with
      | error why =>
          cases h
          exact hdeliver
      | ok count =>
          obtain ⟨o, rfl, rfl⟩ := hdeliver
          cases h
          refine ⟨_, hs.step (ps ++ [.began, .sent sql o]) ?_ ?_ ?_ hrefused
            ((hnumbered.executed sql _).wrote _) ?_ ?_⟩
          · by_cases ho : o.rows = []
            · have hplaced := hlist o
              rw [if_pos ho] at hplaced
              rw [ho]
              refine .idle ?_
              rw [List.nil_append, List.append_assoc]
              exact hplaced
            · have hplaced := hlist o
              rw [if_neg ho] at hplaced
              have hcount : ¬o.rows.length = 0 := by rwa [List.length_eq_zero_iff]
              rw [if_neg hcount]
              exact .check hplaced
          · rw [Journal.acts_wrote, Journal.acts_executed, hacts, List.filterMap_append,
              List.append_assoc]
            rfl
          · rw [Journal.output_wrote, Journal.output_executed, houtput, List.map_append,
              String.join_append, hp.text]
            simp [Deed.text]
          · rw [List.foldl_append, hp.counted]
            rfl
          · rw [List.filterMap_append, List.length_append]
            change Phase.credit (if _ then _ else _) + 1 ≤ _ + 2 * (_ + 1)
            split <;> simp only [Phase.credit] <;> omega

/-- A wait behind a first round or a check. -/
theorem idle_tells (hs : Standing shape q n r ds j) (hr : r.phase = .idle)
    (h : (step host.noted shape q r).run (s, j) = (p, s', j')) : j'.Tells shape q (n + 1) p := by
  have hlist := (hr ▸ hs.placed : Placed q .idle _ _).waiting
  have hstep : step host.noted shape q r = (do
      if ← host.noted.wait then return .running { r with phase := .check }
      else return .cancelled r.totals) := by rw [step, hr]
  rw [hstep, World.run_bind, Host.run_wait] at h
  generalize host.wait.run s = x at h
  obtain ⟨lasted, v⟩ := x
  cases lasted with
  | true =>
      cases h
      refine ⟨_, hs.step [.waited] (.check hlist) rfl ?_ rfl (hs.numbered.waited true) rfl
        ?_⟩
      · simp [Deed.text]
      · rw [hr]
        exact Nat.le_refl 2
  | false =>
      cases h
      refine hs.cancelled [] ?_ ?_ ?_ rfl (hs.numbered.waited false) rfl
      · rw [List.append_nil]
        exact hlist.begun
      · simp
      · simp

/-- A check whether a mark has changed. -/
theorem check_tells (hs : Standing shape q n r ds j) (hr : r.phase = .check)
    (h : (check host.noted q r).run (s, j) = (p, s', j')) : j'.Tells shape q (n + 1) p := by
  have hlist := (hr ▸ hs.placed : Placed q .check _ _).checking
  rw [check, World.run_bind] at h
  generalize hx : (probeAll host.noted r.nextId .empty q.tables).run (s, j) = x at h
  obtain ⟨⟨marks, id⟩, v, k⟩ := x
  have hprobes := probeAll_tells hs (.inr ⟨_, hlist⟩) hx
  cases marks with
  | error why =>
      cases h
      exact hprobes
  | ok marks =>
      obtain ⟨houtput, hrefused, hnumbered, hm, ps, hp, hacts⟩ := hprobes
      have hsame := Marks.same_iff (hm.trans hlist.tables.symm)
      by_cases he : marks = r.former
      · simp only [if_pos (hsame.mpr he)] at h
        cases h
        refine ⟨_, hs.step ps (.idle ?_) hacts ?_ hrefused hnumbered (hp.counted _).symm ?_⟩
        · rw [List.append_assoc]
          exact hlist.same (he ▸ hp)
        · rw [houtput, hp.text, String.append_empty]
        · rw [hr]
          exact Nat.le_add_right 1 _
      · -- A query without tables has no marks that could change, so the probes are acts.
        have hmarks : marks.entries ≠ [] := by
          intro hnil
          have hformer := hlist.tables
          rw [← hm, hnil, List.map_nil, List.map_eq_nil_iff] at hformer
          exact he (congrArg Marks.mk (hnil.trans hformer.symm))
        simp only [if_neg (fun h => he (hsame.mp h))] at h
        cases h
        refine ⟨_, hs.step (ps ++ [.began]) ?_ ?_ ?_ hrefused hnumbered ?_ ?_⟩
        · have hnone : ([] : List Outcome).length = ([] : List (TableRef × Int64)).length := rfl
          exact .changes hlist hm hp he (List.nil_append _).symm hnone hlist.tables
        · rw [hacts, List.filterMap_append]
          simp [Deed.act?]
        · rw [houtput, List.map_append, String.join_append, hp.text]
          simp [Deed.text]
        · rw [List.foldl_append, hp.counted]
          rfl
        · rw [hr, List.filterMap_append, List.length_append, hp.length_acts]
          have := List.length_pos_iff.mpr hmarks
          simp only [Phase.credit]
          omega

/-- The query for one table of a round of changes, and the wait behind it. -/
theorem advance_tells {marks : Marks} {t : TableRef} {pending : List TableRef}
    (hs : Standing shape q n r ds j) (hr : r.phase = .changes marks (t :: pending))
    (h : (advance host.noted shape q r marks t pending).run (s, j) = (p, s', j')) :
    j'.Tells shape q (n + 1) p := by
  obtain ⟨mark, hmark, hnext⟩ :=
    (hr ▸ hs.placed : Placed q (.changes marks (t :: pending)) _ _).next
  simp only [advance, hmark, Option.getD_some] at h
  rw [World.run_bind] at h
  generalize hsql : (q.bounded marks (some ⟨t, mark⟩)).display = sql at h
  simp only [Query.delivery, hsql] at hnext
  generalize hx : (deliver host.noted shape r.nextId sql).run (s, j) = x at h
  obtain ⟨count, v, k⟩ := x
  have hnone : j.acts = j.acts ++ ([] : List Deed).filterMap Deed.act? := by
    rw [List.filterMap_nil, List.append_nil]
  -- A statement may fail without an answer; that the schedule has it is seen from a blank one.
  have hbegun : Begun q (ds ++ [] ++ [.sent sql .blank] ++ [.waited]) := by
    rw [List.append_nil, List.append_assoc]
    exact (hnext .blank).begun
  have hdeliver := deliver_tells hs hnone rfl hs.numbered hbegun.of_append hx
  cases count with
  | error why =>
      cases h
      exact hdeliver
  | ok count =>
      obtain ⟨o, rfl, rfl⟩ := hdeliver
      have hnumbered := (hs.numbered.executed sql (.ok o)).wrote
        (String.join (o.rows.map (shape.line o.columns)))
      have hplaced := hnext o
      by_cases ho : o.rows = []
      · have hcount : o.rows.length = 0 := by rw [ho, List.length_nil]
        rw [if_pos ho] at hplaced
        simp only [if_pos hcount] at h
        rw [World.run_bind, Host.run_wait] at h
        generalize host.wait.run v = x at h
        obtain ⟨lasted, v'⟩ := x
        cases lasted with
        | true =>
            cases h
            refine ⟨_, hs.step [.sent sql o, .waited] hplaced ?_ ?_ rfl
              (hnumbered.waited true) rfl ?_⟩
            · simp [Deed.act?]
            · simp [Deed.text]
            · rw [hr]
              simp [Phase.credit, Deed.act?]
        | false =>
            cases h
            refine hs.cancelled [.sent sql o] ?_ ?_ ?_ rfl (hnumbered.waited false) rfl
            · rw [List.append_assoc]
              exact hplaced.begun
            · simp [Deed.act?]
            · simp [Deed.text]
      · have hcount : ¬o.rows.length = 0 := by rwa [List.length_eq_zero_iff]
        rw [if_neg ho] at hplaced
        simp only [if_neg hcount] at h
        cases h
        refine ⟨_, hs.step [.sent sql o] hplaced ?_ ?_ rfl hnumbered rfl ?_⟩
        · simp [Deed.act?]
        · simp [Deed.text]
        · rw [hr]
          simp [Phase.credit, Deed.act?]

/-- What a step does is told by its journal. -/
theorem step_tells (hs : Standing shape q n r ds j)
    (h : (step host.noted shape q r).run (s, j) = (p, s', j')) : j'.Tells shape q (n + 1) p := by
  match hr : r.phase with
  | .first =>
      rw [step, hr] at h
      exact firstRound_tells hs hr h
  | .idle => exact idle_tells hs hr h
  | .check =>
      rw [step, hr] at h
      exact check_tells hs hr h
  | .changes marks (t :: pending) =>
      rw [step, hr] at h
      exact advance_tells hs hr h
  | .changes marks [] =>
      rw [step, hr] at h
      cases h
      refine ⟨_, hs.step [] ?_ ?_ ?_ rfl hs.numbered rfl ?_⟩
      · rw [List.append_nil]
        exact .check (hr ▸ hs.placed : Placed q (.changes marks []) _ _).finished
      · simp
      · simp
      · rw [hr]
        exact Nat.le_refl 2

/-- What several steps do is told by their journal. -/
theorem steps_tells {m : Nat} (hs : Standing shape q n r ds j)
    (h : (steps host.noted shape q m r).run (s, j) = (p, s', j')) : j'.Tells shape q (n + m) p := by
  induction m generalizing n r ds s j with
  | zero =>
      cases h
      exact ⟨ds, hs⟩
  | succ m ih =>
      rw [steps, World.run_bind] at h
      generalize hx : (step host.noted shape q r).run (s, j) = x at h
      obtain ⟨p', v, k⟩ := x
      have htell := step_tells hs hx
      cases p' with
      | running r' =>
          obtain ⟨ds', hs'⟩ := htell
          rw [Nat.add_comm m 1, ← Nat.add_assoc]
          exact ih hs' h
      | cancelled t =>
          cases h
          exact htell
      | failed why =>
          cases h
          exact htell

/-- The beginning of a run stands at the beginning of a schedule. -/
theorem standing_start (shape : Shape) (q : Query) : Standing shape q 0 start [] .empty :=
  ⟨.first, rfl, rfl, rfl, .empty, rfl, Nat.le_refl 0⟩

/-- A run keeps to a schedule, whatever its host does. The numbers of its statements count from one.
Its acts are those of a list that has begun as a schedule does, and it is never at rest: there is an
act in any two steps. It is cancelled exactly where a wait is cut short, at a place where the
schedule has a wait, and then it gives the numbers of the rounds begun, of the queries run and of
the lines written. It fails only at a statement of a schedule, behind all that the schedule has
before it, and only for the answer to this statement or for the first piece that was refused. -/
theorem schedule_kept (host : Host (StateM σ)) (shape : Shape) (q : Query) (n : Nat) (s : σ) :
    ∃ p s' j, (steps host.noted shape q n start).run (s, .empty) = (p, s', j) ∧
      (steps host shape q n start).run s = (p, s') ∧
      j.ids = (List.range (j.acts.countP Act.isStatement)).map (fun i => UInt64.ofNat (i + 1)) ∧
      (j.ids.Nodup ∨ 2 ^ 64 ≤ j.ids.length) ∧
      (.wait false ∈ j.acts ↔ ∃ t, p = .cancelled t) ∧
      match p with
      | .running _ => n ≤ 2 * j.acts.length ∧ ∃ ds, Begun q ds ∧
          j.acts = ds.filterMap Deed.act? ∧ j.output = String.join (ds.map (Deed.text shape)) ∧
          j.refused = []
      | .cancelled t => ∃ ds, Begun q (ds ++ [.waited]) ∧
          j.acts = ds.filterMap Deed.act? ++ [.wait false] ∧
          j.output = String.join (ds.map (Deed.text shape)) ∧ j.refused = [] ∧
          t = ⟨.ofNat (ds.countP Deed.begins), .ofNat (ds.countP Deed.sends),
            .ofNat (Sink.linesFrom [] j.output.toList).length⟩
      | .failed why => ∃ ds d sql answer, Begun q (ds ++ [d]) ∧ d.sql? = some sql ∧
          j.acts = ds.filterMap Deed.act? ++ [.statement sql answer] ∧
          d.Fails answer j.refused why := by
  have hmirror := Mirrors.steps host shape q n start s .empty
  generalize hx : (steps host.noted shape q n start).run (s, .empty) = x at hmirror
  obtain ⟨p, s', j⟩ := x
  have htell := steps_tells (standing_start shape q) hx
  obtain ⟨id, hnumbered⟩ := htell.numbered
  refine ⟨p, s', j, rfl, hmirror.symm, hnumbered.ids, hnumbered.nodup, ?_, ?_⟩
  · cases p with
    | running r =>
        obtain ⟨ds, hs⟩ := htell
        exact iff_of_false (hs.acts ▸ Deed.not_mem_acts ds) (by simp)
    | cancelled t =>
        obtain ⟨ds, -, hacts, -⟩ := htell
        exact iff_of_true (by simp [hacts]) ⟨t, rfl⟩
    | failed why =>
        obtain ⟨ds, d, sql, answer, -, -, hacts, -⟩ := htell
        refine iff_of_false ?_ (by simp)
        rw [hacts, List.mem_append, List.mem_singleton]
        exact fun hm => hm.elim (Deed.not_mem_acts ds) (by simp)
  · cases p with
    | running r =>
        obtain ⟨ds, hs⟩ := htell
        have hpaced := hs.paced
        exact ⟨by omega, ds, hs.placed.begun, hs.acts, hs.output, hs.accepted⟩
    | cancelled t =>
        obtain ⟨ds, hbegun, hacts, houtput, hrefused, htotals, -⟩ := htell
        refine ⟨ds, hbegun, hacts, houtput, hrefused, ?_⟩
        rw [houtput, linesFrom_texts, htotals, tally_eq shape]
    | failed why =>
        obtain ⟨ds, d, sql, answer, hbegun, hd, hacts, hfails, -⟩ := htell
        exact ⟨ds, d, sql, answer, hbegun, hd, hacts, hfails⟩

end Run

end

end Rowtime
