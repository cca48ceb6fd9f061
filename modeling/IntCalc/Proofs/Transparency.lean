import IntCalc.Proofs.Dialogue
import IntCalc.Proofs.Objects

/-!
# A cache is not seen in the answers

`ObjectDialogue.view` reads the objects of a dialogue as they are now. The caller holds no
outcome the cache refers to and none has a part in common with another
(`ObjectDialogue.Guarded`), so each command does to the view what it does to a dialogue
whose outcomes are values (`ObjectDialogue.run_view`), whatever the caller changes.

Both dialogues therefore give the same answers, and these are the outcomes that the
calculator has without a cache (`ObjectDialogue.answers_uncached`).
-/

namespace IntCalc

/-! ## Caches of places -/

namespace Cache

variable {κ ν μ : Type} {f g : ν → μ} {c : Cache κ ν}

/-- The cache with `f` of every value. -/
def map (f : ν → μ) (c : Cache κ ν) : Cache κ μ where
  capacity := c.capacity
  entries := c.entries.map fun e => (e.1, f e.2)
  hits := c.hits
  misses := c.misses

theorem map_congr (h : ∀ e ∈ c.entries, f e.2 = g e.2) : c.map f = c.map g := by
  have hentries : c.entries.map (fun e => (e.1, f e.2)) = c.entries.map fun e => (e.1, g e.2) :=
    List.map_congr_left fun e he => by rw [h e he]
  simp only [map, hentries]

theorem miss_map (f : ν → μ) (c : Cache κ ν) (k : κ) (v : ν) :
    (c.map f).miss k (f v) = (c.miss k v).map f := by
  by_cases h : 0 < c.capacity <;> simp [miss, map, h, newest]

variable [DecidableEq κ]

theorem hit?_map (f : ν → μ) (c : Cache κ ν) (k : κ) :
    (c.map f).hit? k = (c.hit? k).map fun answer => (f answer.1, answer.2.map f) := by
  have hfind : (c.map f).entries.find? (·.1 = k) =
      (c.entries.find? (·.1 = k)).map fun e => (e.1, f e.2) := by
    simp only [map, List.find?_map]
    rfl
  unfold hit?
  rw [hfind]
  cases c.entries.find? (·.1 = k) with
  | none => rfl
  | some e => simp [map, without, List.filter_map, Function.comp_def]

end Cache

/-! ## Views -/

/-- Nothing that is stored changes from one store to the other. -/
structure Store.Keeps (s s' : Store) : Prop where
  next_le : s.outcomes.next ≤ s'.outcomes.next
  outcome_eq : ∀ p < s.outcomes.next, s'.outcome p = s.outcome p

namespace Store

variable {s s' s'' : Store} {p q : Place} {o : Outcome}

theorem Keeps.refl (s : Store) : s.Keeps s :=
  ⟨Nat.le_refl _, fun _ _ => rfl⟩

theorem Keeps.trans (h : s.Keeps s') (h' : s'.Keeps s'') : s.Keeps s'' :=
  ⟨Nat.le_trans h.next_le h'.next_le, fun p hp =>
    (h'.outcome_eq p (Nat.lt_of_lt_of_le hp h.next_le)).trans (h.outcome_eq p hp)⟩

theorem Separate.keeps_add (h : s.Separate) (o : Outcome) : s.Keeps (s.add o) :=
  ⟨Nat.le_succ _, fun p hp => ((h.within p hp).sameIn_add o).outcome_eq⟩

/-- A new outcome and the copy of it are the same. -/
theorem Separate.copy_add (h : s.Separate) (o : Outcome) :
    let store := (s.add o).copy s.outcomes.next
    s.Keeps store ∧ store.outcome s.outcomes.next = o ∧
      store.outcome (s.outcomes.next + 1) = o := by
  intro store
  have hkeeps : (s.add o).Keeps store := (h.add o).keeps_add _
  refine ⟨(h.keeps_add o).trans hkeeps, ?_, ?_⟩
  · exact (hkeeps.outcome_eq _ (Nat.lt_succ_self _)).trans outcome_add_next
  · exact outcome_add_next.trans outcome_add_next

/-- A change leaves the other outcomes as they are. -/
theorem Separate.outcome_overwrite (h : s.Separate) (hp : p < s.outcomes.next)
    (hq : q < s.outcomes.next) (hne : q ≠ p) : (s.overwrite p o).outcome q = s.outcome q :=
  ((h.apart p hp q hq hne.symm).sameIn_overwrite (h.within q hq) o).outcome_eq

end Store

/-- The session with its outcomes as they are now. -/
def ObjectSession.view (s : ObjectSession) : Session :=
  ⟨s.calculator, s.cache.map s.store.outcome⟩

namespace ObjectDialogue

variable {d : ObjectDialogue} {s : ObjectSession} {held : List Place} {text : String}

/-- The dialogue with its outcomes as they are now. -/
def view (d : ObjectDialogue) : Dialogue :=
  ⟨d.session.view, d.held.map d.session.store.outcome⟩

/-- No outcome has a part in common with another, and the caller holds none that the cache
refers to. -/
structure Guarded (d : ObjectDialogue) : Prop where
  separate : d.session.store.Separate
  held_lt : ∀ p ∈ d.held, p < d.session.store.outcomes.next
  nodup : d.held.Nodup
  cached_lt : ∀ e ∈ d.session.cache.entries, e.2 < d.session.store.outcomes.next
  cached_not_mem : ∀ e ∈ d.session.cache.entries, e.2 ∉ d.held

theorem guarded_start (c : Calculator) (n : Int) : (start c n).Guarded :=
  ⟨Store.separate_empty, by simp [start], by simp [start], by simp [start], by simp [start]⟩

/-- What is cached stays as it is in the view. -/
theorem Guarded.cache_map_eq (h : Guarded ⟨s, held⟩) {store : Store}
    (hkeeps : s.store.Keeps store) :
    s.cache.map store.outcome = s.cache.map s.store.outcome :=
  Cache.map_congr fun e he => hkeeps.outcome_eq _ (h.cached_lt e he)

theorem Guarded.held_map_eq (h : Guarded ⟨s, held⟩) {store : Store}
    (hkeeps : s.store.Keeps store) :
    held.map store.outcome = held.map s.store.outcome :=
  List.map_congr_left fun p hp => hkeeps.outcome_eq _ (h.held_lt p hp)

/-- A cache may refer to less. -/
theorem Guarded.forget (h : Guarded ⟨s, held⟩) {cache : Cache String Place}
    (hcache : ∀ e ∈ cache.entries, e ∈ s.cache.entries) :
    Guarded ⟨{ s with cache := cache }, held⟩ :=
  ⟨h.separate, h.held_lt, h.nodup, fun e he => h.cached_lt e (hcache e he),
    fun e he => h.cached_not_mem e (hcache e he)⟩

/-- A new outcome may be handed out. -/
theorem Guarded.hand (h : Guarded ⟨s, held⟩) (o : Outcome) :
    Guarded ⟨{ s with store := s.store.add o }, s.store.outcomes.next :: held⟩ := by
  have hnew : ∀ p ∈ s.store.outcomes.next :: held, p < (s.store.add o).outcomes.next := by
    intro p hp
    rcases List.mem_cons.1 hp with rfl | hp
    · exact Nat.lt_succ_self _
    · exact Nat.lt_succ_of_lt (h.held_lt p hp)
  refine ⟨h.separate.add o, hnew, ?_, fun e he => Nat.lt_succ_of_lt (h.cached_lt e he), ?_⟩
  · exact List.nodup_cons.2 ⟨fun hmem => Nat.lt_irrefl _ (h.held_lt _ hmem), h.nodup⟩
  · intro e he hmem
    rcases List.mem_cons.1 hmem with heq | hmem
    · exact Nat.ne_of_lt (h.cached_lt e he) heq
    · exact h.cached_not_mem e he hmem

/-- A new outcome may be cached instead. -/
theorem Guarded.keep (h : Guarded ⟨s, held⟩) (o : Outcome) {cache : Cache String Place}
    (hcache : ∀ e ∈ cache.entries, e ∈ s.cache.entries ∨ e = (text, s.store.outcomes.next)) :
    Guarded ⟨{ s with store := s.store.add o, cache := cache }, held⟩ := by
  refine ⟨h.separate.add o, fun p hp => Nat.lt_succ_of_lt (h.held_lt p hp), h.nodup, ?_, ?_⟩
  · intro e he
    rcases hcache e he with hold | rfl
    · exact Nat.lt_succ_of_lt (h.cached_lt e hold)
    · exact Nat.lt_succ_self _
  · intro e he hmem
    rcases hcache e he with hold | rfl
    · exact h.cached_not_mem e hold hmem
    · exact Nat.lt_irrefl _ (h.held_lt _ hmem)

/-- A text is answered in the view as it is with values. -/
theorem evaluate_view (h : Guarded ⟨s, held⟩) (text : String) :
    ∃ p s', s.evaluate text = .ok (p, s') ∧
      s.view.evaluate text = .ok (s'.store.outcome p, s'.view) ∧ Guarded ⟨s', p :: held⟩ ∧
      s.store.Keeps s'.store := by
  cases hhit : s.cache.hit? text with
  | some answer =>
    obtain ⟨p, cache⟩ := answer
    have hsub : ∀ e ∈ cache.entries, e ∈ s.cache.entries := fun e he =>
      Cache.mem_entries_of_hit? hhit he
    have hkeeps := h.separate.keeps_add (s.store.outcome p)
    refine ⟨s.store.outcomes.next, { s with store := s.store.copy p, cache := cache }, ?_, ?_,
      (h.hand _).forget hsub, hkeeps⟩
    · simp [ObjectSession.evaluate, hhit]
    · have hcopy : (s.store.copy p).outcome s.store.outcomes.next = s.store.outcome p :=
        Store.outcome_add_next
      have hcache := (h.forget hsub).cache_map_eq hkeeps
      simp only [ObjectSession.view, Session.evaluate, Cache.hit?_map, hhit, hcopy]
      exact congrArg (fun cache => Except.ok (_, Session.mk _ cache)) hcache.symm
  | none =>
    -- the outcome is handed out at the next place and its copy is cached at the one after it
    let o := s.calculator.outcome text
    let store := (s.store.add o).copy s.store.outcomes.next
    let cache := s.cache.miss text (s.store.outcomes.next + 1)
    have hguarded : Guarded ⟨⟨s.calculator, store, cache⟩, s.store.outcomes.next :: held⟩ :=
      (h.hand o).keep _ fun _ => Cache.mem_entries_miss
    obtain ⟨hkeeps, hnew, hcopy⟩ := h.separate.copy_add o
    have hcache : cache.map store.outcome = (s.cache.map s.store.outcome).miss text o :=
      calc cache.map store.outcome
        _ = (s.cache.map store.outcome).miss text (store.outcome (s.store.outcomes.next + 1)) :=
          (Cache.miss_map ..).symm
        _ = (s.cache.map s.store.outcome).miss text o :=
          congrArg₂ (Cache.miss · text ·) (h.cache_map_eq hkeeps) hcopy
    refine ⟨s.store.outcomes.next, ⟨s.calculator, store, cache⟩, ?_, ?_, hguarded, hkeeps⟩
    · simp only [ObjectSession.evaluate, hhit, s.calculator.evaluate_eq_ok text]
      rfl
    · simp only [ObjectSession.view, Session.evaluate, Cache.hit?_map, hhit, hcache,
        s.calculator.evaluate_eq_ok text]
      exact congrArg (fun o => Except.ok (o, _)) hnew.symm

/-- So are texts in order. -/
theorem evaluateAll_view (h : Guarded ⟨s, held⟩) (texts : List String) :
    ∃ ps s', s.evaluateAll texts = .ok (ps, s') ∧
      s.view.evaluateAll texts = .ok (ps.map s'.store.outcome, s'.view) ∧
      Guarded ⟨s', ps.reverse ++ held⟩ ∧ s.store.Keeps s'.store := by
  induction texts generalizing s held with
  | nil => exact ⟨[], s, rfl, rfl, h, Store.Keeps.refl _⟩
  | cons text texts ih =>
    obtain ⟨p, s', heval, hview, hguarded, hkeeps⟩ := evaluate_view h text
    obtain ⟨ps, s'', hrest, hrestview, hguarded', hkeeps'⟩ := ih hguarded
    have hp : s''.store.outcome p = s'.store.outcome p :=
      hkeeps'.outcome_eq p (hguarded.held_lt p List.mem_cons_self)
    refine ⟨p :: ps, s'', ObjectSession.evaluateAll_cons heval hrest, ?_, ?_, hkeeps.trans hkeeps'⟩
    · rw [List.map_cons, hp]
      exact Session.evaluateAll_cons hview hrestview
    · simpa using hguarded'

/-- A change of one outcome is seen in it alone. -/
theorem Guarded.edit (h : Guarded ⟨s, held⟩) {index : Nat} {p : Place} (hp : held[index]? = some p)
    (change : Outcome → Outcome) :
    let store := s.store.overwrite p (change (s.store.outcome p))
    held.map store.outcome = (held.map s.store.outcome).modify index change ∧
      s.cache.map store.outcome = s.cache.map s.store.outcome ∧
      Guarded ⟨{ s with store := store }, held⟩ := by
  intro store
  have hmem : p ∈ held := List.mem_of_getElem? hp
  have hlt := h.held_lt p hmem
  refine ⟨?_, Cache.map_congr fun e he => ?_, h.separate.overwrite hlt _, h.held_lt, h.nodup,
    h.cached_lt, h.cached_not_mem⟩
  · refine List.ext_getElem? fun i => ?_
    rw [List.getElem?_map, List.getElem?_modify, List.getElem?_map]
    by_cases hi : index = i
    · subst hi
      simp [hp, store, Store.outcome_overwrite_self (h.separate.within p hlt)]
    · cases hq : held[i]? with
      | none => simp [hi]
      | some q =>
        have hindex : index < held.length := (List.getElem?_eq_some_iff.1 hp).1
        have hne : q ≠ p := by
          rintro rfl
          exact hi ((List.getElem?_inj hindex h.nodup).1 (hp.trans hq.symm))
        have hq' := h.held_lt q (List.mem_of_getElem? hq)
        simp [hi, store, h.separate.outcome_overwrite hlt hq' hne]
  · refine h.separate.outcome_overwrite hlt (h.cached_lt e he) ?_
    rintro rfl
    exact h.cached_not_mem e he hmem

/-- Each command does to the view what it does to a dialogue of values. -/
theorem run_view (h : d.Guarded) (command : Command) :
    ∃ answer d', d.run command = .ok (answer, d') ∧ d.view.run command = .ok (answer, d'.view) ∧
      d'.Guarded := by
  obtain ⟨s, held⟩ := d
  cases command with
  | evaluate text =>
    obtain ⟨p, s', heval, hview, hguarded, hkeeps⟩ := evaluate_view h text
    have hheld := h.held_map_eq hkeeps
    refine ⟨[s'.store.outcome p], ⟨s', p :: held⟩, ?_, ?_, hguarded⟩
    · rw [run, heval]
      rfl
    · simp only [Dialogue.run, view, hview, List.map_cons, hheld]
      rfl
  | evaluateAll texts =>
    obtain ⟨ps, s', heval, hview, hguarded, hkeeps⟩ := evaluateAll_view h texts
    have hheld := h.held_map_eq hkeeps
    refine ⟨ps.map s'.store.outcome, ⟨s', ps.reverse ++ held⟩, ?_, ?_, hguarded⟩
    · rw [run, heval]
      rfl
    · simp only [Dialogue.run, view, hview, List.map_append, List.map_reverse, hheld]
      rfl
  | clear => exact ⟨[], _, rfl, rfl, h.forget (by simp [Cache.clear])⟩
  | resize n => exact ⟨[], _, rfl, rfl, h.forget fun _ he => he⟩
  | edit index change =>
    cases hp : held[index]? with
    | none =>
      refine ⟨[], ⟨s, held⟩, ?_, ?_, h⟩
      · simp only [run, hp]
        rfl
      · have hheld : (held.map s.store.outcome).modify index change = held.map s.store.outcome :=
          List.modify_eq_self (by simpa using List.getElem?_eq_none_iff.1 hp)
        simp only [Dialogue.run, view, hheld, List.getElem?_map, hp]
        rfl
    | some p =>
      obtain ⟨hheld, hcache, hguarded⟩ := h.edit hp change
      let store := s.store.overwrite p (change (s.store.outcome p))
      refine ⟨[store.outcome p], ⟨{ s with store := store }, held⟩, ?_, ?_, hguarded⟩
      · simp only [run, hp]
        rfl
      · simp only [Dialogue.run, view, ObjectSession.view, ← hheld, hcache, List.getElem?_map, hp,
          store]
        rfl

/-- So does a list of commands. -/
theorem runAll_view (h : d.Guarded) (commands : List Command) :
    ∃ answers d', d.runAll commands = .ok (answers, d') ∧
      d.view.runAll commands = .ok (answers, d'.view) ∧ d'.Guarded := by
  induction commands generalizing d with
  | nil => exact ⟨[], d, rfl, rfl, h⟩
  | cons command commands ih =>
    obtain ⟨answer, d', hrun, hview, hguarded⟩ := run_view h command
    obtain ⟨answers, d'', hrest, hrestview, hguarded'⟩ := ih hguarded
    exact ⟨answer :: answers, d'', runAll_cons hrun hrest, Dialogue.runAll_cons hview hrestview,
      hguarded'⟩

/-- Every dialogue comes to its end, and its view is that of a dialogue with values. -/
theorem runAll_start (c : Calculator) (n : Int) (commands : List Command) :
    ∃ answers d, (start c n).runAll commands = .ok (answers, d) ∧
      (Dialogue.start c n).runAll commands = .ok (answers, d.view) ∧ d.Guarded :=
  runAll_view (guarded_start c n) commands

/-- After a dialogue a text is answered with the outcome it has without a cache. -/
theorem answer_eq_evaluate {c : Calculator} {n : Int} {commands : List Command}
    {answers : List (List Outcome)} (h : (start c n).runAll commands = .ok (answers, d))
    (text : String) : d.session.answer text = c.evaluate text := by
  obtain ⟨_, _, hrun, hview, hguarded⟩ := runAll_start c n commands
  obtain ⟨rfl, rfl⟩ := Prod.mk.inj (Except.ok.inj (h.symm.trans hrun))
  obtain ⟨_, held, hvalues, -⟩ := Dialogue.runAll_start c n commands
  have hsession : d.session.view = ⟨c, Dialogue.cacheOf c n commands⟩ :=
    congrArg (·.2.session) (Except.ok.inj (hview.symm.trans hvalues))
  obtain ⟨p, s', heval, hanswer, -, -⟩ := evaluate_view hguarded text
  rw [hsession, Dialogue.evaluate_cacheOf] at hanswer
  have hp : s'.store.outcome p = c.outcome text :=
    (congrArg Prod.fst (Except.ok.inj hanswer)).symm
  rw [ObjectSession.answer, heval, c.evaluate_eq_ok]
  exact congrArg Except.ok hp

/-- Whatever a caller does to the outcomes it holds, it is answered as without a cache, and
as after any other dialogue. -/
theorem answers_uncached (c : Calculator) (n : Int) (commands : List Command) :
    ∃ answers d, (start c n).runAll commands = .ok (answers, d) ∧
      (Dialogue.start c n).runAll commands = .ok (answers, d.view) ∧
      List.Forall₂ (Command.Answered c) commands answers ∧
      (∀ text, d.session.answer text = c.evaluate text) ∧
      ∀ n' commands', ∃ answers' d', (start c n').runAll commands' = .ok (answers', d') ∧
        ∀ text, d'.session.answer text = d.session.answer text := by
  obtain ⟨answers, d, hrun, hview, -⟩ := runAll_start c n commands
  obtain ⟨_, _, hvalues, hanswers⟩ := Dialogue.runAll_start c n commands
  obtain ⟨rfl, -⟩ := Prod.mk.inj (Except.ok.inj (hview.symm.trans hvalues))
  refine ⟨answers, d, hrun, hview, hanswers, answer_eq_evaluate hrun, fun n' commands' => ?_⟩
  obtain ⟨answers', d', hrun', -⟩ := runAll_start c n' commands'
  exact ⟨answers', d', hrun', fun text =>
    (answer_eq_evaluate hrun' text).trans (answer_eq_evaluate hrun text).symm⟩

end ObjectDialogue

end IntCalc
