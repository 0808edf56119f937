import Rowtime.Proofs.Steps

/-!
# The history of a run

A run that has not failed is behind its first round, behind some complete rounds of
changes, and possibly in one that is not complete. Its history lists what the data
queries of these rounds gave, with their marks. The former marks of a round are the
marks of the round before. What was written is the lines of these results one after
the other, and what was executed is the texts of the data queries in this order,
with probes before, between and behind them.
-/
namespace Rowtime

open Log Sql

/-- A round of changes: the marks of the round before, its own marks, and what its queries gave,
table by table. -/
structure Round where
  former : Marks
  marks : Marks
  sent : List (TableRef × Relation)

namespace Round

/-- The query for a table and what it gave. -/
def delivery (r : Round) (e : TableRef × Relation) : Delivery :=
  ⟨r.marks, some ⟨e.1, (r.former.get? e.1).getD 0⟩, e.2⟩

/-- The data queries of the round. -/
def deliveries (r : Round) : List Delivery := r.sent.map r.delivery

/-- The rows that were written in the round. -/
def rows (r : Round) : List Row := r.sent.flatMap fun e => e.2.rows

/-- A round of a query for some of its tables. -/
structure Of (r : Round) (q : Query) (db : Catalog) (ts : List TableRef) : Prop where
  tables : r.sent.map (·.1) = ts
  former : r.former.Tracks q.tables db
  marks : r.marks.Tracks q.tables db
  notBelow : r.marks.NotBelow r.former
  deliveries : ∀ d ∈ r.deliveries, d.Of q db

theorem Of.grows {r : Round} {q : Query} {db db' : Catalog} {ts : List TableRef} (h : r.Of q db ts)
    (hg : ∀ t ∈ q.tables, db.GrowsAt db' t.name) : r.Of q db' ts :=
  ⟨h.tables, h.former.grows hg, h.marks.grows hg, h.notBelow, fun d hd => (h.deliveries d hd).grows hg⟩

/-- The marks behind a list of rounds. -/
def marksAfter (first : Marks) (rs : List Round) : Marks := rs.foldl (fun _ r => r.marks) first

/-- Every round takes over the marks of the one before. -/
def Chained (first : Marks) : List Round → Prop
  | [] => True
  | r :: rs => r.former = first ∧ Chained r.marks rs

@[simp] theorem marksAfter_nil (first : Marks) : marksAfter first [] = first := rfl

@[simp] theorem marksAfter_cons (first : Marks) (r : Round) (rs : List Round) :
    marksAfter first (r :: rs) = marksAfter r.marks rs := rfl

theorem marksAfter_concat (first : Marks) (rs : List Round) (r : Round) :
    marksAfter first (rs ++ [r]) = r.marks := by
  rw [marksAfter, List.foldl_append]
  rfl

theorem chained_append {first : Marks} {rs rs' : List Round} :
    Chained first (rs ++ rs') ↔ Chained first rs ∧ Chained (marksAfter first rs) rs' := by
  induction rs generalizing first with
  | nil => simp [Chained]
  | cons r rs ih => rw [List.cons_append, Chained, Chained, ih, and_assoc, marksAfter_cons]

theorem chained_concat {first : Marks} {rs : List Round} {r : Round} :
    Chained first (rs ++ [r]) ↔ Chained first rs ∧ r.former = marksAfter first rs := by
  rw [chained_append, Chained, Chained, and_true]

end Round

/-- The texts of data queries in their order, with probes before, between and behind them. -/
inductive Interspersed (probe : String → Prop) : List String → List String → Prop
  | nil : Interspersed probe [] []
  | probe {texts all : List String} (sql : String) (hs : probe sql)
      (h : Interspersed probe texts all) : Interspersed probe texts (all ++ [sql])
  | text {texts all : List String} (sql : String) (h : Interspersed probe texts all) :
      Interspersed probe (texts ++ [sql]) (all ++ [sql])

namespace Interspersed

variable {probe : String → Prop}

theorem probes {texts all sqls : List String} (h : Interspersed probe texts all)
    (hs : ∀ sql ∈ sqls, probe sql) : Interspersed probe texts (all ++ sqls) := by
  induction sqls generalizing all with
  | nil => rwa [List.append_nil]
  | cons sql sqls ih =>
      rw [List.append_cons]
      exact ih (.probe sql (hs sql (by simp)) h) fun s hm => hs s (by simp [hm])

/-- Behind the last data query there are probes only. -/
theorem last {texts all : List String} {sql : String} (h : Interspersed probe (texts ++ [sql]) all) :
    ∃ earlier probes, all = earlier ++ sql :: probes ∧ ∀ s ∈ probes, probe s := by
  generalize he : texts ++ [sql] = ts at h
  induction h with
  | nil => simp at he
  | @probe ts all s hs h ih =>
      obtain ⟨earlier, probes, rfl, hp⟩ := ih he
      refine ⟨earlier, probes ++ [s], by simp, fun x hx => ?_⟩
      rcases List.mem_append.mp hx with hx | hx
      · exact hp x hx
      · exact List.mem_singleton.mp hx ▸ hs
  | @text ts all s h ih =>
      obtain ⟨-, hsql⟩ := List.append_inj' he rfl
      rw [List.singleton_inj] at hsql
      exact ⟨all, [], by rw [hsql], by simp⟩

end Interspersed

/-- The first round, the complete rounds of changes and the one under way. -/
structure History where
  marks : Marks
  result : Relation
  rounds : List Round
  current : Option Round

namespace History

/-- All rounds of changes. -/
def all (h : History) : List Round := h.rounds ++ h.current.toList

/-- The data queries. -/
def deliveries (h : History) : List Delivery :=
  ⟨h.marks, none, h.result⟩ :: h.all.flatMap Round.deliveries

/-- The marks of the last complete round. -/
def last (h : History) : Marks := Round.marksAfter h.marks h.rounds

/-- The lines that were written. -/
def lines (h : History) (shape : Shape) : List String := h.deliveries.flatMap (·.lines shape)

/-- The rows that were written. -/
def rows (h : History) : List Row := h.result.rows ++ h.all.flatMap Round.rows

/-- A history of a query on tables that have grown since. -/
structure Of (h : History) (q : Query) (db : Catalog) : Prop where
  first : (Delivery.mk h.marks none h.result).Of q db
  chained : Round.Chained h.marks h.all
  rounds : ∀ r ∈ h.rounds, r.Of q db q.tables
  current : ∀ r ∈ h.current, ∃ ts, ts <+: q.tables ∧ r.Of q db ts

/-- What a run has written and executed in its world. -/
structure Explains (h : History) (q : Query) (shape : Shape) (sink : Sink) (w : World) : Prop where
  of : h.Of q w.db
  content : w.sink.content = sink.content ++ String.join (h.lines shape)
  executed : Interspersed (fun sql => ∃ t ∈ q.tables, sql = t.probe)
    (h.deliveries.map (·.text q)) w.executed

theorem Of.grows {h : History} {q : Query} {db db' : Catalog} (k : h.Of q db)
    (hg : ∀ t ∈ q.tables, db.GrowsAt db' t.name) : h.Of q db' := by
  refine ⟨k.first.grows hg, k.chained, fun r hr => (k.rounds r hr).grows hg, fun r hr => ?_⟩
  obtain ⟨ts, hts, hr⟩ := k.current r hr
  exact ⟨ts, hts, hr.grows hg⟩

/-- Every round of changes is one for the first tables of the query. -/
theorem Of.mem_all {h : History} {q : Query} {db : Catalog} (k : h.Of q db) {r : Round}
    (hr : r ∈ h.all) : ∃ ts, ts <+: q.tables ∧ r.Of q db ts := by
  rcases List.mem_append.mp hr with hr | hr
  · exact ⟨_, List.prefix_refl _, k.rounds r hr⟩
  · exact k.current r (Option.mem_toList.mp hr)

theorem Of.deliveries {h : History} {q : Query} {db : Catalog} (k : h.Of q db) :
    ∀ d ∈ h.deliveries, d.Of q db := by
  intro d hd
  rcases List.mem_cons.mp hd with rfl | hd
  · exact k.first
  · obtain ⟨r, hr, hd⟩ := List.mem_flatMap.mp hd
    obtain ⟨ts, -, hof⟩ := k.mem_all hr
    exact hof.deliveries d hd

theorem Of.complete_chained {h : History} {q : Query} {db : Catalog} (k : h.Of q db) :
    Round.Chained h.marks h.rounds :=
  (Round.chained_append.mp k.chained).1

/-! ### What the moves do to a history -/

/-- The history with a round of changes that has just begun. -/
def begin (h : History) (marks : Marks) : History := { h with current := some ⟨h.last, marks, []⟩ }

/-- The history with one more query in the round under way. -/
def send (h : History) (e : TableRef × Relation) : History :=
  { h with current := h.current.map fun r => { r with sent := r.sent ++ [e] } }

/-- The history with the round under way complete. -/
def complete (h : History) : History :=
  { h with rounds := h.rounds ++ h.current.toList, current := none }

@[simp] theorem all_begin {h : History} (hc : h.current = none) (marks : Marks) :
    (h.begin marks).all = h.all ++ [⟨h.last, marks, []⟩] := by
  simp [all, begin, hc]

@[simp] theorem all_complete (h : History) : h.complete.all = h.all := by
  simp [all, complete]

theorem all_of_current {h : History} {c : Round} (hc : h.current = some c) :
    h.all = h.rounds ++ [c] := by
  rw [all, hc, Option.toList_some]

theorem deliveries_begin {h : History} (hc : h.current = none) (marks : Marks) :
    (h.begin marks).deliveries = h.deliveries := by
  rw [deliveries, deliveries, all_begin hc, List.flatMap_append]
  simp [begin, Round.deliveries]

theorem deliveries_complete (h : History) : h.complete.deliveries = h.deliveries := by
  rw [deliveries, deliveries, all_complete]
  rfl

theorem deliveries_send {h : History} {c : Round} (hc : h.current = some c)
    (e : TableRef × Relation) : (h.send e).deliveries = h.deliveries ++ [c.delivery e] := by
  simp [deliveries, send, all, hc, Round.deliveries, Round.delivery]

variable {h : History} {q : Query} {db : Catalog}

theorem Of.begin (k : h.Of q db) (hc : h.current = none) {marks : Marks}
    (hformer : h.last.Tracks q.tables db) (hmarks : marks.Tracks q.tables db)
    (hbelow : marks.NotBelow h.last) : (h.begin marks).Of q db := by
  refine ⟨k.first, ?_, k.rounds, ?_⟩
  · have hchained := k.chained
    rw [all, hc, Option.toList_none, List.append_nil] at hchained
    exact Round.chained_concat.mpr ⟨hchained, rfl⟩
  · rintro c ⟨⟩
    exact ⟨[], List.nil_prefix, rfl, hformer, hmarks, hbelow, fun d hd => (by cases hd)⟩

theorem Of.former (k : h.Of q db) {c : Round} (hc : h.current = some c) : c.former = h.last := by
  have hchained := k.chained
  rw [all_of_current hc] at hchained
  exact (Round.chained_concat.mp hchained).2

theorem Of.send (k : h.Of q db) {c : Round} (hc : h.current = some c) {t : TableRef}
    {result : Relation} {pending : List TableRef} (ht : c.sent.map (·.1) ++ t :: pending = q.tables)
    (hd : (c.delivery (t, result)).Of q db) : (h.send (t, result)).Of q db := by
  obtain ⟨ts, -, hcof⟩ := k.current c hc
  refine ⟨k.first, ?_, k.rounds, ?_⟩
  · have hchained := k.chained
    rw [all_of_current hc, Round.chained_concat] at hchained
    rw [History.send, hc]
    exact Round.chained_concat.mpr hchained
  · intro x hx
    rw [History.send, hc, Option.map_some, Option.mem_some_iff] at hx
    subst hx
    refine ⟨c.sent.map (·.1) ++ [t], ⟨pending, by rw [← ht, List.append_assoc]; rfl⟩, by simp,
      hcof.former, hcof.marks, hcof.notBelow, ?_⟩
    intro d hmem
    rw [Round.deliveries, List.map_append, List.mem_append] at hmem
    rcases hmem with hmem | hmem
    · exact hcof.deliveries d hmem
    · exact List.mem_singleton.mp hmem ▸ hd

theorem Of.complete (k : h.Of q db) {c : Round} (hc : h.current = some c)
    (ht : c.sent.map (·.1) = q.tables) : h.complete.Of q db := by
  obtain ⟨ts, -, hcof⟩ := k.current c hc
  refine ⟨k.first, ?_, ?_, fun x hx => (by cases hx)⟩
  · rw [all_complete]
    exact k.chained
  · intro x hx
    rw [History.complete, hc, Option.toList_some, List.mem_append] at hx
    rcases hx with hx | hx
    · exact k.rounds x hx
    · rw [List.mem_singleton.mp hx]
      exact { hcof with tables := ht }

theorem last_complete {c : Round} (hc : h.current = some c) : h.complete.last = c.marks := by
  rw [last, complete, hc, Option.toList_some, Round.marksAfter_concat]

variable {shape : Shape} {sink : Sink} {w w' : World}

/-- Probes add nothing to what was written. -/
theorem Explains.probed (he : h.Explains q shape sink w) {h' : History} (hof : h'.Of q w'.db)
    (hd : h'.deliveries = h.deliveries) (hcontent : w'.sink.content = w.sink.content)
    {ts : List TableRef} (hts : ∀ t ∈ ts, t ∈ q.tables)
    (hexecuted : w'.executed = w.executed ++ ts.map TableRef.probe) :
    h'.Explains q shape sink w' := by
  refine ⟨hof, by rw [hcontent, he.content, lines, lines, hd], ?_⟩
  rw [hexecuted, hd]
  refine he.executed.probes fun sql hsql => ?_
  obtain ⟨t, ht, rfl⟩ := List.mem_map.mp hsql
  exact ⟨t, hts t ht, rfl⟩

/-- Where nothing is executed nothing is written. -/
theorem Explains.still (he : h.Explains q shape sink w) {h' : History} (hof : h'.Of q w'.db)
    (hd : h'.deliveries = h.deliveries) (hcontent : w'.sink.content = w.sink.content)
    (hexecuted : w'.executed = w.executed) : h'.Explains q shape sink w' :=
  he.probed hof hd hcontent (fun _ ht => absurd ht List.not_mem_nil)
    (by rw [hexecuted, List.map_nil, List.append_nil])

/-- A data query adds its text and its lines. -/
theorem Explains.sent (he : h.Explains q shape sink w) {h' : History} (hof : h'.Of q w'.db)
    {d : Delivery} (hd : h'.deliveries = h.deliveries ++ [d])
    (hcontent : w'.sink.content = w.sink.content ++ String.join (d.lines shape))
    (hexecuted : w'.executed = w.executed ++ [d.text q]) : h'.Explains q shape sink w' := by
  refine ⟨hof, ?_, ?_⟩
  · rw [hcontent, he.content, lines, lines, hd, List.flatMap_append, String.join_append,
      List.flatMap_singleton, String.append_assoc]
  · rw [hexecuted, hd, List.map_append]
    exact .text _ he.executed

end History

namespace Run

open World

/-- The part of a history that a run between two steps remembers. -/
structure Remembers (q : Query) (r : Run) (h : History) : Prop where
  former : r.former = h.last
  quiet : r.phase = .idle ∨ r.phase = .check → h.current = none
  changes : ∀ marks pending, r.phase = .changes marks pending →
    ∃ c, h.current = some c ∧ c.marks = marks ∧ c.sent.map (·.1) ++ pending = q.tables

/-- A run behind its first round, or one that has done nothing yet. -/
structure Done (q : Query) (shape : Shape) (sink : Sink) (r : Run) (w : World) : Prop where
  first : r.phase = .first → w.sink.content = sink.content ∧ w.executed = []
  behind : r.phase ≠ .first → ∃ h : History, h.Explains q shape sink w ∧ r.Remembers q h

variable {env : Surroundings} {shape : Shape} {q : Query}

theorem Done.of_history {sink : Sink} {r : Run} {w : World} {h : History}
    (he : h.Explains q shape sink w) (hr : r.Remembers q h) (hp : r.phase ≠ .first) :
    Done q shape sink r w :=
  ⟨fun h => absurd h hp, fun _ => ⟨h, he, hr⟩⟩

/-- Where no round is under way. -/
theorem Remembers.calm {r : Run} {h : History} (hf : r.former = h.last) (hc : h.current = none)
    (hp : r.phase = .idle ∨ r.phase = .check) : r.Remembers q h := by
  refine ⟨hf, fun _ => hc, fun ms pending h => ?_⟩
  rcases hp with hp | hp <;> rw [hp] at h <;> cases h

/-- Where a round is under way. -/
theorem Remembers.busy {r : Run} {h : History} (hf : r.former = h.last) {c : Round}
    (hc : h.current = some c) {marks : Marks} {pending : List TableRef}
    (hp : r.phase = .changes marks pending) (hm : c.marks = marks)
    (ht : c.sent.map (·.1) ++ pending = q.tables) : r.Remembers q h := by
  refine ⟨hf, fun h => ?_, fun ms ts h => ?_⟩
  · rcases h with h | h <;> rw [hp] at h <;> cases h
  · rw [hp, Phase.changes.injEq] at h
    exact ⟨c, hc, hm.trans h.1, h.2 ▸ ht⟩

/-- No move leads back to the beginning. -/
theorem Move.phase_ne {r r' : Run} {w w' : World} (hm : Move shape q r w r' w') :
    r'.phase ≠ .first := by
  intro h
  cases hm with
  | began _ _ phase' => rcases phase' with h' | h' <;> rw [h'] at h <;> cases h
  | waited _ phase' => rw [phase'] at h; cases h
  | unchanged _ phase' => rw [phase'] at h; cases h
  | changed _ _ phase' => rw [phase'] at h; cases h
  | advanced _ _ _ _ _ phase' => rw [phase'] at h; cases h
  | finished _ _ phase' => rw [phase'] at h; cases h

/-- Every move of a run is in its history. -/
theorem Done.move (hf : Follows env q) {sink : Sink} {r r' : Run} {w w' : World}
    (hs : Standing q r w) (hs' : Standing q r' w') (hg : Grew q.guarded w w')
    (hm : Move shape q r w r' w') (hd : Done q shape sink r w) : Done q shape sink r' w' := by
  have hgrows := hf.growsAt hs.ready.recorded hg
  have hne := hm.phase_ne
  cases hm with
  | began result phase phase' gave content executed =>
      obtain ⟨hcontent, hexecuted⟩ := hd.first phase
      refine .of_history (h := ⟨r'.former, result, [], none⟩) ⟨⟨gave, trivial, ?_, ?_⟩, ?_, ?_⟩
        (.calm rfl rfl phase') hne
      · exact fun x hx => absurd hx List.not_mem_nil
      · exact fun x hx => (by cases hx)
      · rw [content, hcontent]
        simp [History.lines, History.deliveries, History.all]
      · rw [executed, hexecuted, List.nil_append]
        refine .text _ (Interspersed.probes .nil fun sql hsql => ?_)
        obtain ⟨t, ht, rfl⟩ := List.mem_map.mp hsql
        exact ⟨t, ht, rfl⟩
  | waited phase phase' former content executed =>
      obtain ⟨h, he, hr⟩ := hd.behind (by rw [phase]; exact Phase.noConfusion)
      exact .of_history (he.still (he.of.grows hgrows) rfl content executed)
        (.calm (former.trans hr.former) (hr.quiet (Or.inl phase)) (Or.inr phase')) hne
  | unchanged phase phase' former content executed =>
      obtain ⟨h, he, hr⟩ := hd.behind (by rw [phase]; exact Phase.noConfusion)
      exact .of_history (he.probed (he.of.grows hgrows) rfl content (fun t ht => ht) executed)
        (.calm (former.trans hr.former) (hr.quiet (Or.inr phase)) (Or.inl phase')) hne
  | changed marks phase phase' former content executed =>
      obtain ⟨h, he, hr⟩ := hd.behind (by rw [phase]; exact Phase.noConfusion)
      have hquiet := hr.quiet (Or.inr phase)
      obtain ⟨htracks, hbelow, -⟩ := hs'.changes marks _ phase'
      have hformer := hs'.former hne
      rw [former, hr.former] at hformer hbelow
      exact .of_history (he.probed ((he.of.grows hgrows).begin hquiet hformer htracks hbelow)
        (History.deliveries_begin hquiet marks) content (fun t ht => ht) executed)
        (.busy (former.trans hr.former) rfl phase' rfl rfl) hne
  | advanced marks t pending result phase phase' former gave content executed =>
      obtain ⟨h, he, hr⟩ := hd.behind (by rw [phase]; exact Phase.noConfusion)
      obtain ⟨c, hc, rfl, htables⟩ := hr.changes _ _ phase
      have hof := he.of.grows hgrows
      have hdelivery : Delivery.mk c.marks (some (r.advanceOf t)) result = c.delivery (t, result) := by
        rw [Round.delivery, hof.former hc, advanceOf, hr.former]
      rw [hdelivery] at gave content executed
      have hcurrent : (h.send (t, result)).current =
          some { c with sent := c.sent ++ [(t, result)] } := by
        rw [History.send, hc, Option.map_some]
      exact .of_history
        (he.sent (hof.send hc htables gave) (History.deliveries_send hc _) content executed)
        (.busy (former.trans hr.former) hcurrent phase' rfl (by rw [← htables]; simp)) hne
  | finished marks phase phase' former content executed =>
      obtain ⟨h, he, hr⟩ := hd.behind (by rw [phase]; exact Phase.noConfusion)
      obtain ⟨c, hc, rfl, htables⟩ := hr.changes _ _ phase
      rw [List.append_nil] at htables
      exact .of_history (he.still ((he.of.grows hgrows).complete hc htables)
        (History.deliveries_complete h) content executed)
        (.calm (former.trans (History.last_complete hc).symm) rfl (Or.inr phase')) hne

/-- A run behind its first step has a history. -/
theorem steps_explained (hf : Follows env q) {log : Bytes} (hl : Recorded (fun _ => False) log)
    {sink : Sink} {n : Nat} {p : Progress} {w : World}
    (hp : (steps (host env) shape q (n + 1) Run.start).run (World.start log sink) = (p, w))
    (hwell : p.Well) : ∃ h : History, h.Explains q shape sink w := by
  have hs := start_standing (q := q) hl sink
  have hd : Done q shape sink Run.start (World.start log sink) :=
    ⟨fun _ => ⟨rfl, rfl⟩, fun h => absurd rfl h⟩
  rw [steps, run_bind] at hp
  generalize hx : (step (host env) shape q Run.start).run (World.start log sink) = x at hp
  obtain ⟨p₁, v⟩ := x
  cases p₁ with
  | running r =>
      obtain ⟨r₁, hr₁, hs₁, hg, hm⟩ := step_spec hf hs hx fun why h => (by cases h)
      obtain rfl : r = r₁ := by
        rcases hr₁ with h | ⟨t, h⟩ <;> cases h
        rfl
      obtain ⟨r', -, -, hd', hne⟩ := steps_spec hf
        (P := fun r w => Done q shape sink r w ∧ r.phase ≠ .first)
        (fun _ _ _ _ hs hs' hg hm h => ⟨h.1.move hf hs hs' hg hm, hm.phase_ne⟩) n hs₁
        ⟨hd.move hf hs hs₁ hg hm, hm.phase_ne⟩ hp hwell
      obtain ⟨h, he, -⟩ := hd'.behind hne
      exact ⟨h, he⟩
  | cancelled t =>
      change (Progress.cancelled t, v) = _ at hp
      simp only [Prod.mk.injEq] at hp
      obtain ⟨rfl, rfl⟩ := hp
      obtain ⟨r', -, hs', hg, hm⟩ := step_spec hf hs hx hwell
      obtain ⟨h, he, -⟩ := (hd.move hf hs hs' hg hm).behind hm.phase_ne
      exact ⟨h, he⟩
  | failed why =>
      change (Progress.failed why, v) = _ at hp
      simp only [Prod.mk.injEq] at hp
      exact absurd hp.1.symm (hwell why)

end Run

end Rowtime
