import ParserCombinators.Grammar.Lemmas

/-! # The depth that is enough

`Grammar.parse` reads with a bounded nesting of rules. This file shows that the bound costs nothing:
whatever some depth finishes, `Grammar.parse` finishes with the same outcome. So `Grammar.parse` is
the reading without a bound, and it is unfinished only where no depth is enough.

The places that count are the pairs of a rule and of a cursor that the start reaches; there are
`Grammar.depthBound` of them. Each depth finishes at least the places that the one before it does.
If it finishes no more, no greater depth does either, and otherwise one more place is used up.

* **`Grammar.runTo_approximates_parse`** — every depth approximates `Grammar.parse`.
* **`Grammar.parse_eq_parseWith`**, **`Grammar.parse_rule`** — `Grammar.parse` satisfies the equations
  of a reading without a bound: a parser reads as its parts do, and a rule reads as its body does. -/

namespace ParserCombinators

/-- If a second predicate holds of every entry of which the first does, and of one entry more, it
holds of more entries. -/
theorem countP_lt_of_wider {ι : Type} {first second : ι → Bool} {entries : List ι}
    (wider : ∀ entry ∈ entries, first entry = true → second entry = true)
    (more : ∃ entry ∈ entries, first entry = false ∧ second entry = true) :
    entries.countP first < entries.countP second := by
  induction entries with
  | nil =>
      obtain ⟨entry, inNil, -⟩ := more
      cases inNil
  | cons head tail ih =>
      have tailWider : ∀ entry ∈ tail, first entry = true → second entry = true :=
        fun entry inTail => wider entry (List.mem_cons_of_mem head inTail)
      have tailLe : tail.countP first ≤ tail.countP second := List.countP_mono_left tailWider
      have headWider := wider head List.mem_cons_self
      obtain ⟨entry, inEntries, without, with'⟩ := more
      rw [List.countP_cons, List.countP_cons]
      rcases List.mem_cons.1 inEntries with rfl | inTail
      · simp only [without, with', Bool.false_eq_true, if_false, if_true]
        omega
      · have tailLt := ih tailWider ⟨entry, inTail, without, with'⟩
        cases ofHead : first head with
        | false =>
            simp only [Bool.false_eq_true, if_false]
            omega
        | true =>
            simp only [headWider ofHead, if_true]
            omega

namespace Grammar

variable {ε ν : Type} {τ : ν → Type} {α : Type}

/-- The pairs of a rule and of how far beyond the start it is entered. -/
def places (g : Grammar ε τ) (c : Cursor ε) : List (ν × Nat) :=
  g.names.flatMap fun name => (List.range (c.remainingCount + 1)).map fun count => (name, count)

/-- There are as many places as the depth bound says. -/
theorem length_places (g : Grammar ε τ) (c : Cursor ε) : (g.places c).length = g.depthBound c := by
  simp [places, depthBound, List.length_flatMap, List.map_const']

/-- Every rule at every reached cursor is a place. -/
theorem exists_mem_places (g : Grammar ε τ) {c d : Cursor ε} (name : ν) (reaches : c.Reaches d) :
    ∃ count, (name, count) ∈ g.places c ∧ d = c.advanceBy count := by
  obtain ⟨count, inside, rfl⟩ := reaches
  refine ⟨count, ?_, rfl⟩
  simp only [places, List.mem_flatMap, List.mem_map, List.mem_range]
  exact ⟨name, g.mem_names name, count, by omega, rfl⟩

/-- The bound at a reached cursor is no greater. -/
theorem depthBound_le_of_reaches (g : Grammar ε τ) {c d : Cursor ε} (reaches : c.Reaches d) :
    g.depthBound d ≤ g.depthBound c :=
  Nat.mul_le_mul_left _ (Nat.succ_le_succ reaches.remainingCount_le)

variable [DecidableEq ε]

/-- Whether a rule, entered at a cursor, finishes within a depth. -/
def finishesWithin (g : Grammar ε τ) (depth : Nat) (name : ν) (c : Cursor ε) : Bool :=
  match g.callTo depth name c with
  | .unfinished => false
  | _ => true

/-- A rule finishes within a depth exactly when its outcome there is not unfinished. -/
theorem finishesWithin_eq_true_iff (g : Grammar ε τ) (depth : Nat) (name : ν) (c : Cursor ε) :
    g.finishesWithin depth name c = true ↔ g.callTo depth name c ≠ .unfinished := by
  unfold finishesWithin
  split <;> simp_all

/-- How many places finish within a depth. -/
def finishedPlaces (g : Grammar ε τ) (c : Cursor ε) (depth : Nat) : Nat :=
  (g.places c).countP fun (name, count) => g.finishesWithin depth name (c.advanceBy count)

/-- A depth is settled at a cursor when one rule more that may be open changes nothing at the
cursors that it reaches. -/
def Settled (g : Grammar ε τ) (c : Cursor ε) (depth : Nat) : Prop :=
  ∀ name d, c.Reaches d → g.callTo depth name d = g.callTo (depth + 1) name d

/-- What a settled depth leaves open stays open at every depth. -/
theorem callTo_eq_of_settled (g : Grammar ε τ) {c : Cursor ε} {depth deeper : Nat}
    (settled : g.Settled c depth) (le : depth ≤ deeper) (name : ν) {d : Cursor ε}
    (reaches : c.Reaches d) : g.callTo deeper name d = g.callTo depth name d := by
  induction le generalizing name d with
  | refl => rfl
  | @step deeper _ ih =>
      rw [settled name d reaches]
      exact Parser.parseWith_congr (g.callTo_leadsOnFrom deeper) (g.callTo_leadsOnFrom depth)
        (g.body name) d fun inner e further => ih inner (reaches.trans further)

/-- A depth that is not settled is followed by one that finishes more places. -/
theorem finishedPlaces_lt_succ (g : Grammar ε τ) {c : Cursor ε} {depth : Nat}
    (unsettled : ¬ g.Settled c depth) :
    g.finishedPlaces c depth < g.finishedPlaces c (depth + 1) := by
  refine countP_lt_of_wider ?_ ?_
  · rintro ⟨name, count⟩ - finished
    rw [finishesWithin_eq_true_iff] at finished ⊢
    rwa [(g.callTo_approximates_succ depth name _).eq_of_ne_unfinished finished]
  · obtain ⟨name, unsettledAt⟩ := Classical.not_forall.1 unsettled
    obtain ⟨d, unsettledAt⟩ := Classical.not_forall.1 unsettledAt
    obtain ⟨reaches, differ⟩ := Classical.not_imp.1 unsettledAt
    obtain ⟨count, isPlace, rfl⟩ := g.exists_mem_places name reaches
    rcases g.callTo_approximates_succ depth name (c.advanceBy count) with isOpen | same
    · refine ⟨(name, count), isPlace, ?_, ?_⟩
      · simp [finishesWithin, isOpen]
      · rw [finishesWithin_eq_true_iff, ← isOpen]
        exact fun same => differ same.symm
    · exact absurd same differ

/-- Unless a smaller depth is settled, a depth finishes at least as many places as it allows open
rules. -/
theorem settled_or_le_finishedPlaces (g : Grammar ε τ) (c : Cursor ε) (depth : Nat) :
    (∃ settledDepth, settledDepth < depth ∧ g.Settled c settledDepth) ∨
      depth ≤ g.finishedPlaces c depth := by
  induction depth with
  | zero => exact Or.inr (Nat.zero_le _)
  | succ depth ih =>
      rcases ih with ⟨settledDepth, lt, settled⟩ | le
      · exact Or.inl ⟨settledDepth, by omega, settled⟩
      · by_cases settled : g.Settled c depth
        · exact Or.inl ⟨depth, by omega, settled⟩
        · have more := g.finishedPlaces_lt_succ settled
          exact Or.inr (by omega)

/-- Some depth up to the bound is settled. -/
theorem exists_settled (g : Grammar ε τ) (c : Cursor ε) :
    ∃ depth, depth ≤ g.depthBound c ∧ g.Settled c depth := by
  rcases g.settled_or_le_finishedPlaces c (g.depthBound c + 1) with ⟨depth, lt, settled⟩ | le
  · exact ⟨depth, by omega, settled⟩
  · have atMost : g.finishedPlaces c (g.depthBound c + 1) ≤ g.depthBound c := by
      rw [← length_places]
      exact List.countP_le_length
    omega

/-- At the cursors that the start reaches, no depth finishes a rule that the bound leaves open. -/
theorem callTo_approximates_depthBound (g : Grammar ε τ) {c d : Cursor ε} (depth : Nat) (name : ν)
    (reaches : c.Reaches d) :
    (g.callTo depth name d).Approximates (g.callTo (g.depthBound c) name d) := by
  obtain ⟨settledDepth, le, settled⟩ := g.exists_settled c
  rcases Nat.le_total depth (g.depthBound c) with shallow | deep
  · exact g.callTo_approximates shallow name d
  · rw [g.callTo_eq_of_settled settled (Nat.le_trans le deep) name reaches,
      g.callTo_eq_of_settled settled le name reaches]
    exact .refl _

/-- Every depth approximates the reading without a bound. -/
theorem runTo_approximates_parse (g : Grammar ε τ) (depth : Nat) (p : Parser ε τ α) (c : Cursor ε) :
    (g.runTo depth p c).Approximates (g.parse p c) :=
  Parser.parseWith_approximates (g.callTo_leadsOnFrom depth) p c
    fun name _ reaches => g.callTo_approximates_depthBound depth name reaches

/-- A depth that is at least the bound reads without a bound. -/
theorem runTo_eq_parse (g : Grammar ε τ) {depth : Nat} {c : Cursor ε} (le : g.depthBound c ≤ depth)
    (p : Parser ε τ α) : g.runTo depth p c = g.parse p c :=
  (g.runTo_approximates_parse depth p c).antisymm (g.runTo_approximates le p c)

/-- Where some depth finishes, the reading without a bound has that outcome. -/
theorem parse_eq_of_runTo (g : Grammar ε τ) {depth : Nat} {p : Parser ε τ α} {c : Cursor ε}
    {outcome : Outcome ε α} (run : g.runTo depth p c = outcome)
    (finished : outcome ≠ .unfinished) : g.parse p c = outcome := by
  rw [← run] at finished ⊢
  exact (g.runTo_approximates_parse depth p c).eq_of_ne_unfinished finished

/-- The reading without a bound is unfinished exactly where no depth finishes. -/
theorem parse_eq_unfinished_iff (g : Grammar ε τ) (p : Parser ε τ α) (c : Cursor ε) :
    g.parse p c = .unfinished ↔ ∀ depth, g.runTo depth p c = .unfinished := by
  constructor
  · intro isOpen depth
    rcases g.runTo_approximates_parse depth p c with isOpen' | same
    · exact isOpen'
    · rw [same, isOpen]
  · intro never
    exact never (g.depthBound c)

/-- Reading leads only to cursors that the start reaches. -/
theorem parse_leadsOnFrom (g : Grammar ε τ) (p : Parser ε τ α) (c : Cursor ε) :
    (g.parse p c).LeadsOnFrom c :=
  Parser.parseWith_leadsOnFrom (g.callTo_leadsOnFrom _) p c

/-- A rule reads as its body does. -/
theorem parse_rule (g : Grammar ε τ) (name : ν) (c : Cursor ε) :
    g.parse (.rule name) c = g.parse (g.body name) c := by
  rw [← g.runTo_eq_parse (Nat.le_succ (g.depthBound c)) (.rule name)]
  rfl

/-- A parser reads as its parts do, where each rule is read without a bound. -/
theorem parse_eq_parseWith (g : Grammar ε τ) (p : Parser ε τ α) (c : Cursor ε) :
    g.parse p c = p.parseWith (fun name => g.parse (.rule name)) c := by
  refine Parser.parseWith_congr (g.callTo_leadsOnFrom _)
    (fun name => g.parse_leadsOnFrom (.rule name)) p c fun name d reaches => ?_
  exact g.runTo_eq_parse (g.depthBound_le_of_reaches reaches) (.rule name)

end Grammar

end ParserCombinators
