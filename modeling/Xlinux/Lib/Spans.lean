/-
This file develops lists of half-open spans over a linear order. A list is
normal when its spans are non-empty, ascending and pairwise non-adjacent; a
normal list is determined by the points it covers. Two operations are studied.
`splice` cuts a new span into the pieces an ascending list does not cover and
puts each piece in its place, which leaves the list ascending but possibly with
touching neighbours; `coalesce` glues touching neighbours and restores the
normal form.
-/

import Mathlib

namespace Spans

open List

/-- A half-open span `[lo, hi)`. -/
@[ext]
structure Span (Point : Type*) where
  lo : Point
  hi : Point
  deriving DecidableEq, Repr

section Order

variable {Point : Type*} [LinearOrder Point]
variable {spans rest : List (Span Point)} {span this : Span Point}

/-- The points of one span. -/
def Span.points (span : Span Point) : Set Point :=
  Set.Ico span.lo span.hi

/-- The points of a list of spans. -/
def cover (spans : List (Span Point)) : Set Point :=
  {point | ∃ span ∈ spans, point ∈ span.points}

/-- Every span of the list is non-empty. -/
def Filled (spans : List (Span Point)) : Prop :=
  ∀ span ∈ spans, span.lo < span.hi

/-- Each span ends at or before the start of every later one. -/
def Ascending (spans : List (Span Point)) : Prop :=
  spans.Pairwise fun first second => first.hi ≤ second.lo

/-- Each span ends strictly before the start of every later one. -/
def Separated (spans : List (Span Point)) : Prop :=
  spans.Pairwise fun first second => first.hi < second.lo

/-- Non-empty, ascending, pairwise disjoint and non-adjacent spans. -/
structure Normal (spans : List (Span Point)) : Prop where
  filled : Filled spans
  separated : Separated spans

/-! ### Membership in a cover -/

@[simp]
theorem Span.mem_points (span : Span Point) (point : Point) :
    point ∈ span.points ↔ span.lo ≤ point ∧ point < span.hi :=
  Iff.rfl

@[simp]
theorem mem_cover_nil (point : Point) : point ∈ cover ([] : List (Span Point)) ↔ False := by
  simp [cover]

@[simp]
theorem mem_cover_cons (span : Span Point) (rest : List (Span Point)) (point : Point) :
    point ∈ cover (span :: rest) ↔ (span.lo ≤ point ∧ point < span.hi) ∨ point ∈ cover rest := by
  simp [cover]

theorem mem_cover_append (first second : List (Span Point)) (point : Point) :
    point ∈ cover (first ++ second) ↔ point ∈ cover first ∨ point ∈ cover second := by
  simp only [cover, mem_append]
  constructor
  · rintro ⟨span, member | member, inside⟩
    · exact Or.inl ⟨span, member, inside⟩
    · exact Or.inr ⟨span, member, inside⟩
  · rintro (⟨span, member, inside⟩ | ⟨span, member, inside⟩)
    · exact ⟨span, Or.inl member, inside⟩
    · exact ⟨span, Or.inr member, inside⟩

/-! ### The order predicates on a list with a head -/

theorem filled_cons (span : Span Point) (rest : List (Span Point)) :
    Filled (span :: rest) ↔ span.lo < span.hi ∧ Filled rest := by
  simp [Filled]

theorem ascending_cons (span : Span Point) (rest : List (Span Point)) :
    Ascending (span :: rest) ↔ (∀ later ∈ rest, span.hi ≤ later.lo) ∧ Ascending rest :=
  pairwise_cons

theorem Separated.ascending (separated : Separated spans) : Ascending spans :=
  separated.imp le_of_lt

theorem Normal.ascending (normal : Normal spans) : Ascending spans :=
  normal.separated.ascending

theorem Normal.nil : Normal ([] : List (Span Point)) :=
  ⟨by simp [Filled], List.Pairwise.nil⟩

theorem Normal.singleton (filled : span.lo < span.hi) : Normal [span] :=
  ⟨by simp [Filled, filled], pairwise_singleton _ _⟩

theorem normal_cons (span : Span Point) (rest : List (Span Point)) :
    Normal (span :: rest) ↔
      span.lo < span.hi ∧ (∀ later ∈ rest, span.hi < later.lo) ∧ Normal rest := by
  constructor
  · rintro ⟨filled, separated⟩
    rw [filled_cons] at filled
    obtain ⟨later, separated⟩ := pairwise_cons.mp separated
    exact ⟨filled.1, later, filled.2, separated⟩
  · rintro ⟨head, later, filled, separated⟩
    exact ⟨(filled_cons _ _).mpr ⟨head, filled⟩, pairwise_cons.mpr ⟨later, separated⟩⟩

theorem Filled.lo_mem_cover (filled : Filled spans) (member : span ∈ spans) :
    span.lo ∈ cover spans :=
  ⟨span, member, le_rfl, filled span member⟩

/-- Non-empty spans end where the points they cover end. -/
theorem hi_le_of_cover (filled : Filled spans) {top : Point}
    (below : ∀ point ∈ cover spans, point < top) (member : span ∈ spans) : span.hi ≤ top := by
  have start : span.lo < top := below span.lo (filled.lo_mem_cover member)
  by_contra beyond
  exact lt_irrefl top (below top ⟨span, member, start.le, not_le.mp beyond⟩)

/-! ### Splicing a span into an ascending list -/

/-- The pieces of `[base, limit)` that the list does not cover, each put in its place. -/
def splice (limit : Point) : List (Span Point) → Point → List (Span Point)
  | [], base => if base < limit then [⟨base, limit⟩] else []
  | span :: rest, base =>
    if limit ≤ span.lo then
      if base < limit then ⟨base, limit⟩ :: span :: rest else span :: rest
    else if span.hi ≤ base then span :: splice limit rest base
    else if base < span.lo then
      ⟨base, span.lo⟩ :: span :: splice limit rest (min span.hi limit)
    else span :: splice limit rest (min span.hi limit)

/-- A splice covers the old points and the new span, whatever the order of the list. -/
theorem mem_cover_splice (limit : Point) (spans : List (Span Point)) (base point : Point) :
    point ∈ cover (splice limit spans base) ↔
      point ∈ cover spans ∨ (base ≤ point ∧ point < limit) := by
  induction spans generalizing base with
  | nil =>
    rw [splice]
    split_ifs with some
    · simp
    · simp only [mem_cover_nil, false_or, false_iff]
      exact fun inside => some (inside.1.trans_lt inside.2)
  | cons span rest ih =>
    rw [splice]
    split_ifs with _ some
    · simp only [mem_cover_cons]
      tauto
    · have none : ¬(base ≤ point ∧ point < limit) := fun inside => some (inside.1.trans_lt inside.2)
      tauto
    all_goals
      simp only [mem_cover_cons]
      grind

/-- Nothing is spliced when the new span is empty and every span starts beyond it. -/
theorem splice_of_limit_le {limit base : Point} (beyond : ∀ span ∈ spans, limit ≤ span.lo)
    (empty : limit ≤ base) : splice limit spans base = spans := by
  cases spans with
  | nil => simp [splice, empty.not_gt]
  | cons span rest =>
    rw [splice, if_pos (beyond span mem_cons_self), if_neg empty.not_gt]

theorem filled_splice (limit : Point) (base : Point)
    (filled : Filled spans) : Filled (splice limit spans base) := by
  induction spans generalizing base with
  | nil =>
    rw [splice]
    split_ifs with positive
    · exact (filled_cons _ _).mpr ⟨positive, filled⟩
    · exact filled
  | cons span rest ih =>
    obtain ⟨head, tail⟩ := (filled_cons _ _).mp filled
    have next := (filled_cons _ _).mpr ⟨head, ih (min span.hi limit) tail⟩
    rw [splice]
    split_ifs with _ positive _ positive
    · exact (filled_cons _ _).mpr ⟨positive, filled⟩
    · exact filled
    · exact (filled_cons _ _).mpr ⟨head, ih base tail⟩
    · exact (filled_cons _ _).mpr ⟨positive, next⟩
    · exact next

/-- A splice starts no lower than the list and the new span do. -/
theorem le_lo_of_mem_splice (limit : Point) {base bound : Point}
    (above : ∀ span ∈ spans, bound ≤ span.lo) (start : bound ≤ base) (filled : Filled spans) :
    ∀ piece ∈ splice limit spans base, bound ≤ piece.lo := by
  intro piece member
  rcases (mem_cover_splice ..).mp ((filled_splice limit base filled).lo_mem_cover member) with
    ⟨span, inside, starts, _⟩ | ⟨starts, _⟩
  · exact (above span inside).trans starts
  · exact start.trans starts

/-- A splice into an ascending list is ascending. -/
theorem ascending_splice (limit : Point) (base : Point) (filled : Filled spans)
    (ascending : Ascending spans) : Ascending (splice limit spans base) := by
  induction spans generalizing base with
  | nil =>
    rw [splice]
    split_ifs
    · exact pairwise_singleton _ _
    · exact ascending
  | cons span rest ih =>
    obtain ⟨positive, filledTail⟩ := (filled_cons _ _).mp filled
    obtain ⟨later, ascendingTail⟩ := (ascending_cons _ _).mp ascending
    -- Everything spliced after `span` starts at or after its end; nothing is spliced there when
    -- the new span is already exhausted.
    have after : ∀ next, min span.hi limit ≤ next →
        ∀ piece ∈ splice limit rest next, span.hi ≤ piece.lo := by
      intro next start
      rcases le_or_gt span.hi limit with limited | short
      · rw [min_eq_left limited] at start
        exact le_lo_of_mem_splice limit later start filledTail
      · rw [min_eq_right short.le] at start
        rwa [splice_of_limit_le (fun next inside => short.le.trans (later next inside)) start]
    have separate := after _ le_rfl
    have whole :=
      (ascending_cons _ _).mpr ⟨separate, ih (min span.hi limit) filledTail ascendingTail⟩
    rw [splice]
    split_ifs with beyond _ passed
    · refine (ascending_cons _ _).mpr ⟨forall_mem_cons.mpr ⟨beyond, fun piece inside => ?_⟩,
        ascending⟩
      exact beyond.trans (positive.le.trans (later piece inside))
    · exact ascending
    · exact (ascending_cons _ _).mpr ⟨after base ((min_le_left _ _).trans passed),
        ih base filledTail ascendingTail⟩
    · refine (ascending_cons _ _).mpr ⟨forall_mem_cons.mpr ⟨le_rfl, fun piece inside => ?_⟩, whole⟩
      exact positive.le.trans (separate piece inside)
    · exact whole

/-! ### Gluing touching neighbours -/

/-- Glue every span of the list to its predecessor when the two touch. -/
def coalesce (this : Span Point) : List (Span Point) → List (Span Point)
  | [] => [this]
  | next :: rest =>
    if this.hi = next.lo then coalesce ⟨this.lo, next.hi⟩ rest
    else this :: coalesce next rest

theorem filled_glue {next : Span Point} (touch : this.hi = next.lo)
    (filled : Filled (this :: next :: rest)) : Filled (⟨this.lo, next.hi⟩ :: rest) := by
  obtain ⟨positive, filledTail⟩ := (filled_cons _ _).mp filled
  obtain ⟨positiveNext, filledRest⟩ := (filled_cons _ _).mp filledTail
  rw [← touch] at positiveNext
  exact (filled_cons _ _).mpr ⟨positive.trans positiveNext, filledRest⟩

theorem ascending_glue {next : Span Point}
    (ascending : Ascending (this :: next :: rest)) : Ascending (⟨this.lo, next.hi⟩ :: rest) := by
  obtain ⟨_, ascendingTail⟩ := (ascending_cons _ _).mp ascending
  obtain ⟨later, ascendingRest⟩ := (ascending_cons _ _).mp ascendingTail
  exact (ascending_cons _ _).mpr ⟨later, ascendingRest⟩

theorem mem_cover_coalesce (filled : Filled (this :: rest)) (point : Point) :
    point ∈ cover (coalesce this rest) ↔ point ∈ cover (this :: rest) := by
  induction rest generalizing this with
  | nil => rfl
  | cons next rest ih =>
    obtain ⟨_, filledTail⟩ := (filled_cons _ _).mp filled
    have positiveNext : next.lo < next.hi := filledTail next mem_cons_self
    unfold coalesce
    split
    · rename_i touch
      rw [ih (filled_glue touch filled)]
      simp only [mem_cover_cons]
      grind
    · rw [mem_cover_cons, ih filledTail, mem_cover_cons this]

/-- Gluing an ascending list of non-empty spans gives a normal list. -/
theorem normal_coalesce (filled : Filled (this :: rest)) (ascending : Ascending (this :: rest)) :
    Normal (coalesce this rest) := by
  induction rest generalizing this with
  | nil => exact Normal.singleton (filled this mem_cons_self)
  | cons next rest ih =>
    obtain ⟨positive, filledTail⟩ := (filled_cons _ _).mp filled
    obtain ⟨later, ascendingTail⟩ := (ascending_cons _ _).mp ascending
    unfold coalesce
    split
    · rename_i touch
      exact ih (filled_glue touch filled) (ascending_glue ascending)
    · rename_i apart
      have start : this.hi < next.lo := lt_of_le_of_ne (later next mem_cons_self) apart
      have glued := ih filledTail ascendingTail
      refine (normal_cons _ _).mpr ⟨positive, fun piece member => ?_, glued⟩
      obtain ⟨span, inside, starts, _⟩ :=
        (mem_cover_coalesce filledTail _).mp (glued.filled.lo_mem_cover member)
      refine lt_of_lt_of_le ?_ starts
      rcases mem_cons.mp inside with rfl | inside
      · exact start
      · have after := ((ascending_cons _ _).mp ascendingTail).1 span inside
        exact start.trans ((filledTail next mem_cons_self).trans_le after)

/-! ### A normal list is its maximal spans -/

/-- A non-empty span inside `points` that no span inside `points` extends. -/
structure IsMaximal (points : Set Point) (span : Span Point) : Prop where
  filled : span.lo < span.hi
  subset : span.points ⊆ points
  maximal : ∀ other : Span Point, span.points ⊆ other.points → other.points ⊆ points → other = span

namespace Normal

variable (normal : Normal spans)

include normal

/-- Of two different spans of a normal list one ends strictly before the other starts. -/
theorem before_or_after {first second : Span Point} (firstMember : first ∈ spans)
    (secondMember : second ∈ spans) :
    first = second ∨ first.hi < second.lo ∨ second.hi < first.lo := by
  induction spans with
  | nil => cases firstMember
  | cons span rest ih =>
    obtain ⟨_, later, tail⟩ := (normal_cons _ _).mp normal
    rcases mem_cons.mp firstMember with rfl | firstRest
    · rcases mem_cons.mp secondMember with rfl | secondRest
      · exact Or.inl rfl
      · exact Or.inr (Or.inl (later second secondRest))
    · rcases mem_cons.mp secondMember with rfl | secondRest
      · exact Or.inr (Or.inr (later first firstRest))
      · exact ih tail firstRest secondRest

/-- The end of a span of a normal list is not covered. -/
theorem hi_notMem_cover (member : span ∈ spans) : span.hi ∉ cover spans := by
  rintro ⟨_, otherMember, starts, ends⟩
  rcases normal.before_or_after member otherMember with same | before | after
  · exact absurd ends (same ▸ lt_irrefl _)
  · exact absurd before starts.not_gt
  · exact absurd ends (after.trans (normal.filled span member)).not_gt

/-- Between a point below a span of a normal list and the span's start there is a point
that is not covered. -/
theorem exists_notMem_cover (member : span ∈ spans) {point : Point} (below : point < span.lo) :
    ∃ hole, point ≤ hole ∧ hole < span.lo ∧ hole ∉ cover spans := by
  by_cases covered : point ∈ cover spans
  · obtain ⟨other, otherMember, starts, ends⟩ := covered
    refine ⟨other.hi, ends.le, ?_, normal.hi_notMem_cover otherMember⟩
    rcases normal.before_or_after otherMember member with same | before | after
    · exact absurd (same ▸ below) starts.not_gt
    · exact before
    · have positive := normal.filled span member
      exact absurd (below.trans (positive.trans after)) starts.not_gt
  · exact ⟨point, le_rfl, below, covered⟩

/-- A non-empty span of covered points lies in one span of a normal list. -/
theorem exists_of_subset_cover (filled : span.lo < span.hi) (inside : span.points ⊆ cover spans) :
    ∃ whole ∈ spans, whole.lo ≤ span.lo ∧ span.hi ≤ whole.hi := by
  obtain ⟨whole, member, starts, ends⟩ := inside ⟨le_rfl, filled⟩
  refine ⟨whole, member, starts, ?_⟩
  by_contra beyond
  exact normal.hi_notMem_cover member (inside ⟨ends.le, not_le.mp beyond⟩)

/-- The spans of a normal list are exactly the maximal spans of the points it covers. -/
theorem mem_iff_isMaximal (span : Span Point) : span ∈ spans ↔ IsMaximal (cover spans) span := by
  constructor
  · intro member
    have positive := normal.filled span member
    refine ⟨positive, fun point inside => ⟨span, member, inside⟩, fun other inside within => ?_⟩
    have start : span.lo ∈ other.points := inside ⟨le_rfl, positive⟩
    have sameLo : other.lo = span.lo := by
      by_contra different
      obtain ⟨_, above, below, uncovered⟩ :=
        normal.exists_notMem_cover member (lt_of_le_of_ne start.1 different)
      exact uncovered (within ⟨above, below.trans start.2⟩)
    have sameHi : other.hi = span.hi := by
      rcases lt_trichotomy other.hi span.hi with shorter | same | longer
      · exact absurd (inside ⟨start.2.le, shorter⟩).2 (lt_irrefl _)
      · exact same
      · exact absurd (within ⟨start.1.trans positive.le, longer⟩) (normal.hi_notMem_cover member)
    exact Span.ext sameLo sameHi
  · intro maximal
    obtain ⟨other, member, starts, ends⟩ :=
      normal.exists_of_subset_cover maximal.filled maximal.subset
    have inside : span.points ⊆ other.points := fun point within =>
      ⟨starts.trans within.1, within.2.trans_le ends⟩
    rw [← maximal.maximal other inside fun point within => ⟨other, member, within⟩]
    exact member

theorem pairwise_lo : spans.Pairwise fun first second => first.lo < second.lo :=
  normal.separated.imp_of_mem fun member _ before => (normal.filled _ member).trans before

end Normal

end Order

end Spans
