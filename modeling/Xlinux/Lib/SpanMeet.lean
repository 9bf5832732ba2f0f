/-
This file intersects two ordered lists of spans with one cursor into each. The
cursor that is advanced is always the one whose span ends first. The result is
described without the cursors: it holds the non-empty pairwise intersections,
each once and in order. The description is symmetric under reversing the order
of the points, so the same walk from the top down visits the same
intersections in the opposite order.
-/

import Xlinux.Lib.Spans

namespace Spans

open List

section Order

variable {Point : Type*} [LinearOrder Point]
variable {first second span : Span Point} {bottom top : Point}
  {rest firsts seconds spans : List (Span Point)}

/-- The common part of two spans, possibly empty. -/
def Span.inter (first second : Span Point) : Span Point :=
  ⟨max first.lo second.lo, min first.hi second.hi⟩

theorem Span.mem_points_inter (first second : Span Point) (point : Point) :
    point ∈ (first.inter second).points ↔ point ∈ first.points ∧ point ∈ second.points := by
  simp only [Span.inter, Span.mem_points, max_le_iff, lt_min_iff]
  tauto

theorem Span.filled_of_inter (filled : (first.inter second).lo < (first.inter second).hi) :
    first.lo < first.hi ∧ second.lo < second.hi :=
  ⟨(le_max_left _ _).trans_lt (filled.trans_le (min_le_left _ _)),
    (le_max_right _ _).trans_lt (filled.trans_le (min_le_right _ _))⟩

/-- An ascending list inside `[bottom, top)` whose non-empty spans are strictly apart. A span
may be empty only at `bottom` or at `top`, so a list that holds an empty placeholder there
qualifies. -/
structure Spread (bottom top : Point) (spans : List (Span Point)) : Prop where
  inside : ∀ span ∈ spans, bottom ≤ span.lo ∧ span.lo ≤ span.hi ∧ span.hi ≤ top
  edge : ∀ span ∈ spans, span.lo < span.hi ∨ span.hi = bottom ∨ span.lo = top
  ordered : spans.Pairwise fun first second =>
    first.hi ≤ second.lo ∧ (first.lo < first.hi → second.lo < second.hi → first.hi < second.lo)

namespace Spread

variable (spread : Spread bottom top (span :: rest))

include spread

theorem tail : Spread bottom top rest :=
  ⟨(forall_mem_cons.mp spread.inside).2,
    (forall_mem_cons.mp spread.edge).2,
    (pairwise_cons.mp spread.ordered).2⟩

theorem later {other : Span Point} (member : other ∈ rest) :
    span.hi ≤ other.lo ∧ (span.lo < span.hi → other.lo < other.hi → span.hi < other.lo) :=
  (pairwise_cons.mp spread.ordered).1 other member

theorem head : bottom ≤ span.lo ∧ span.lo ≤ span.hi ∧ span.hi ≤ top :=
  spread.inside span mem_cons_self

/-- What is not above the first span is not above any. -/
theorem le_lo {point : Point} (below : point ≤ span.lo) :
    ∀ other ∈ span :: rest, point ≤ other.lo := by
  intro other member
  rcases mem_cons.mp member with rfl | later
  · exact below
  · exact below.trans (spread.head.2.1.trans (spread.later later).1)

end Spread

/-- Two spans that reach into each other have a non-empty common part. -/
theorem Spread.inter_filled (spreadFirst : Spread bottom top (first :: firsts))
    (spreadSecond : Spread bottom top (second :: seconds)) (reaches : ¬ first.hi ≤ second.lo)
    (meets : first.lo < second.hi) : (first.inter second).lo < (first.inter second).hi := by
  have reaches := not_le.mp reaches
  have firstFilled : first.lo < first.hi := by
    rcases spreadFirst.edge first mem_cons_self with filled | low | high
    · exact filled
    · exact absurd (low ▸ reaches) spreadSecond.head.1.not_gt
    · exact absurd (high ▸ meets) spreadSecond.head.2.2.not_gt
  have secondFilled : second.lo < second.hi := by
    rcases spreadSecond.edge second mem_cons_self with filled | low | high
    · exact filled
    · exact absurd (low ▸ meets) spreadFirst.head.1.not_gt
    · exact absurd (high ▸ reaches) spreadFirst.head.2.2.not_gt
  exact max_lt (lt_min firstFilled meets) (lt_min reaches secondFilled)

/-! ### The walk with two cursors -/

/-- The two-cursor intersection of two ordered lists. -/
def meet : List (Span Point) → List (Span Point) → List (Span Point)
  | first :: restFirst, second :: restSecond =>
    if first.hi ≤ second.lo then meet restFirst (second :: restSecond)
    else if first.lo < second.hi then
      if first.hi ≤ second.hi then first.inter second :: meet restFirst (second :: restSecond)
      else first.inter second :: meet (first :: restFirst) restSecond
    else meet (first :: restFirst) restSecond
  | [], _ => []
  | _ :: _, [] => []
termination_by firsts seconds => firsts.length + seconds.length

theorem meet_nil_right (firsts : List (Span Point)) : meet firsts [] = [] := by
  cases firsts <;> rw [meet]

/-- Each turn of the walk passes a span of one of the lists. -/
theorem length_meet_le (firsts seconds : List (Span Point)) :
    (meet firsts seconds).length ≤ firsts.length + seconds.length := by
  fun_induction meet firsts seconds with
  | case1 | case2 | case3 | case4 =>
    simp only [length_cons] at *
    omega
  | case5 | case6 => simp

/-- `span` is the non-empty common part of a span of each list. -/
def IsMeet (firsts seconds : List (Span Point)) (span : Span Point) : Prop :=
  ∃ first ∈ firsts, ∃ second ∈ seconds, span = first.inter second ∧ span.lo < span.hi

theorem isMeet_cons_left (first : Span Point) (restFirst seconds : List (Span Point))
    (span : Span Point) :
    IsMeet (first :: restFirst) seconds span ↔
      IsMeet [first] seconds span ∨ IsMeet restFirst seconds span := by
  simp [IsMeet]

theorem isMeet_cons_right (second : Span Point) (firsts restSecond : List (Span Point))
    (span : Span Point) :
    IsMeet firsts (second :: restSecond) span ↔
      IsMeet firsts [second] span ∨ IsMeet firsts restSecond span := by
  simp [IsMeet, and_or_left, exists_or]

/-- A span meets no span that starts at or after its end. -/
theorem not_isMeet_of_le (beyond : ∀ second ∈ seconds, first.hi ≤ second.lo) (span : Span Point) :
    ¬ IsMeet [first] seconds span := by
  rintro ⟨_, member, second, secondMember, rfl, positive⟩
  rw [mem_singleton.mp member] at positive
  have after := beyond second secondMember
  simp only [Span.inter, lt_min_iff, max_lt_iff] at positive
  exact absurd positive.1.2 after.not_gt

theorem not_isMeet_of_ge (beyond : ∀ first ∈ firsts, second.hi ≤ first.lo) (span : Span Point) :
    ¬ IsMeet firsts [second] span := by
  rintro ⟨first, firstMember, _, member, rfl, positive⟩
  rw [mem_singleton.mp member] at positive
  have after := beyond first firstMember
  simp only [Span.inter, lt_min_iff, max_lt_iff] at positive
  exact absurd positive.2.1 after.not_gt

theorem isMeet_singletons (filled : (first.inter second).lo < (first.inter second).hi) :
    IsMeet [first] [second] span ↔ span = first.inter second := by
  simp only [IsMeet, mem_singleton, exists_eq_left]
  exact ⟨fun h => h.1, fun h => ⟨h, h ▸ filled⟩⟩

section

variable (spreadFirst : Spread bottom top firsts) (spreadSecond : Spread bottom top seconds)

include spreadFirst spreadSecond

/-- The walk yields exactly the non-empty pairwise intersections. -/
theorem mem_meet (span : Span Point) : span ∈ meet firsts seconds ↔ IsMeet firsts seconds span := by
  fun_induction meet firsts seconds with
  | case1 first restFirst second restSecond passed ih =>
    rw [ih spreadFirst.tail spreadSecond, isMeet_cons_left first]
    simp only [not_isMeet_of_le (spreadSecond.le_lo passed), false_or]
  | case2 first restFirst second restSecond reaches meets shorter ih =>
    have filled := spreadFirst.inter_filled spreadSecond reaches meets
    have beyond : ∀ other ∈ restSecond, first.hi ≤ other.lo := fun other member =>
      shorter.trans (spreadSecond.later member).1
    rw [mem_cons, ih spreadFirst.tail spreadSecond,
      isMeet_cons_left first, isMeet_cons_right second [first],
      isMeet_singletons filled]
    simp only [not_isMeet_of_le beyond, or_false]
  | case3 first restFirst second restSecond reaches meets longer ih =>
    have filled := spreadFirst.inter_filled spreadSecond reaches meets
    have beyond : ∀ other ∈ restFirst, second.hi ≤ other.lo := fun other member =>
      (not_le.mp longer).le.trans (spreadFirst.later member).1
    rw [mem_cons, ih spreadFirst spreadSecond.tail,
      isMeet_cons_right second, isMeet_cons_left first restFirst [second],
      isMeet_singletons filled]
    simp only [not_isMeet_of_ge beyond, or_false]
  | case4 first restFirst second restSecond reaches misses ih =>
    rw [ih spreadFirst spreadSecond.tail, isMeet_cons_right second]
    simp only [not_isMeet_of_ge (spreadFirst.le_lo (not_lt.mp misses)), false_or]
  | case5 seconds => simp [IsMeet]
  | case6 first restFirst => simp [IsMeet]

/-- Every intersection the walk yields starts at or after the start of both lists. -/
theorem normal_meet :
    Normal (meet firsts seconds) := by
  fun_induction meet firsts seconds with
  | case1 first restFirst second restSecond passed ih =>
    exact ih spreadFirst.tail spreadSecond
  | case2 first restFirst second restSecond reaches meets shorter ih =>
    have filled := spreadFirst.inter_filled spreadSecond reaches meets
    refine (normal_cons _ _).mpr ⟨filled, fun later member => ?_, ih spreadFirst.tail spreadSecond⟩
    obtain ⟨other, otherMember, _, _, rfl, otherFilled⟩ :=
      (mem_meet spreadFirst.tail spreadSecond later).mp member
    have apart := (spreadFirst.later otherMember).2 (Span.filled_of_inter filled).1
      (Span.filled_of_inter otherFilled).1
    exact (min_le_left _ _).trans_lt (apart.trans_le (le_max_left _ _))
  | case3 first restFirst second restSecond reaches meets longer ih =>
    have filled := spreadFirst.inter_filled spreadSecond reaches meets
    refine (normal_cons _ _).mpr ⟨filled, fun later member => ?_, ih spreadFirst spreadSecond.tail⟩
    obtain ⟨_, _, other, otherMember, rfl, otherFilled⟩ :=
      (mem_meet spreadFirst spreadSecond.tail later).mp member
    have apart := (spreadSecond.later otherMember).2 (Span.filled_of_inter filled).2
      (Span.filled_of_inter otherFilled).2
    exact (min_le_right _ _).trans_lt (apart.trans_le (le_max_right _ _))
  | case4 first restFirst second restSecond reaches misses ih =>
    exact ih spreadFirst spreadSecond.tail
  | case5 seconds => exact Normal.nil
  | case6 first restFirst => exact Normal.nil

/-- The walk covers the points both lists cover. -/
theorem cover_meet :
    cover (meet firsts seconds) = cover firsts ∩ cover seconds := by
  ext point
  constructor
  · rintro ⟨span, member, inside⟩
    obtain ⟨first, firstMember, second, secondMember, rfl, _⟩ :=
      (mem_meet spreadFirst spreadSecond span).mp member
    have both := (first.mem_points_inter second point).mp inside
    exact ⟨⟨first, firstMember, both.1⟩, ⟨second, secondMember, both.2⟩⟩
  · rintro ⟨⟨first, firstMember, inFirst⟩, ⟨second, secondMember, inSecond⟩⟩
    have inside := (first.mem_points_inter second point).mpr ⟨inFirst, inSecond⟩
    refine ⟨first.inter second, (mem_meet spreadFirst spreadSecond _).mpr ?_, inside⟩
    exact ⟨first, firstMember, second, secondMember, rfl, inside.1.trans_lt inside.2⟩

end

/-! ### The walk from the top down -/

/-- The two-cursor intersection of two lists given in descending order. -/
def meetDown : List (Span Point) → List (Span Point) → List (Span Point)
  | first :: restFirst, second :: restSecond =>
    if second.hi ≤ first.lo then meetDown restFirst (second :: restSecond)
    else if second.lo < first.hi then
      if second.lo ≤ first.lo then first.inter second :: meetDown restFirst (second :: restSecond)
      else first.inter second :: meetDown (first :: restFirst) restSecond
    else meetDown (first :: restFirst) restSecond
  | [], _ => []
  | _ :: _, [] => []
termination_by firsts seconds => firsts.length + seconds.length

theorem meetDown_nil_right (firsts : List (Span Point)) : meetDown firsts [] = [] := by
  cases firsts <;> rw [meetDown]

/-- A span read in the opposite order of the points. -/
def Span.flip (span : Span Point) : Span Pointᵒᵈ :=
  ⟨OrderDual.toDual span.hi, OrderDual.toDual span.lo⟩

omit [LinearOrder Point] in
theorem Span.flip_injective : Function.Injective (Span.flip : Span Point → Span Pointᵒᵈ) := by
  intro first second same
  injection same with hi lo
  exact Span.ext lo hi

/-- Walking down is walking up in the opposite order. -/
theorem map_flip_meetDown (firsts seconds : List (Span Point)) :
    (meetDown firsts seconds).map Span.flip =
      meet (firsts.map Span.flip) (seconds.map Span.flip) := by
  fun_induction meetDown firsts seconds with
  | case1 first restFirst second restSecond passed ih =>
    rw [ih, map_cons, map_cons, meet]
    exact (if_pos passed).symm
  | case2 first restFirst second restSecond reaches meets shorter ih =>
    rw [map_cons, ih, map_cons, map_cons, meet]
    exact ((if_neg reaches).trans ((if_pos meets).trans (if_pos shorter))).symm
  | case3 first restFirst second restSecond reaches meets longer ih =>
    rw [map_cons, ih, map_cons, map_cons, meet]
    exact ((if_neg reaches).trans ((if_pos meets).trans (if_neg longer))).symm
  | case4 first restFirst second restSecond reaches misses ih =>
    rw [ih, map_cons, map_cons, meet]
    exact ((if_neg reaches).trans (if_neg misses)).symm
  | case5 seconds => rw [map_nil, meet]
  | case6 first restFirst => rw [map_nil, map_cons, meet]

/-- A spread list, reversed and read in the opposite order, is spread. -/
theorem Spread.flip (spread : Spread bottom top spans) :
    Spread (OrderDual.toDual top) (OrderDual.toDual bottom) (spans.reverse.map Span.flip) := by
  refine ⟨?_, ?_, ?_⟩
  · intro span member
    obtain ⟨original, inside, rfl⟩ := mem_map.mp member
    obtain ⟨low, forward, high⟩ := spread.inside original (mem_reverse.mp inside)
    exact ⟨high, forward, low⟩
  · intro span member
    obtain ⟨original, inside, rfl⟩ := mem_map.mp member
    rcases spread.edge original (mem_reverse.mp inside) with filled | low | high
    · exact Or.inl filled
    · exact Or.inr (Or.inr low)
    · exact Or.inr (Or.inl high)
  · rw [pairwise_map, pairwise_reverse]
    exact spread.ordered.imp fun order => ⟨order.1, fun second first => order.2 first second⟩

/-- The walk down yields what the walk up yields, in the opposite order. -/
theorem meetDown_reverse
    (spreadFirst : Spread bottom top firsts) (spreadSecond : Spread bottom top seconds) :
    meetDown firsts.reverse seconds.reverse = (meet firsts seconds).reverse := by
  have up := normal_meet spreadFirst spreadSecond
  have down := normal_meet spreadFirst.flip spreadSecond.flip
  rw [← map_flip_meetDown] at down
  apply reverse_injective
  rw [reverse_reverse]
  refine List.Pairwise.eq_of_mem_iff (pairwise_reverse.mpr ?_) up.pairwise_lo ?_
  · have separated := pairwise_map.mp down.separated
    refine separated.imp_of_mem fun {first second} _ member before => ?_
    have filled : second.lo < second.hi := down.filled second.flip (mem_map_of_mem member)
    have apart : second.hi < first.lo := before
    exact filled.trans apart
  · intro span
    rw [mem_reverse, mem_meet spreadFirst spreadSecond,
      ← mem_map_of_injective Span.flip_injective, map_flip_meetDown,
      mem_meet spreadFirst.flip spreadSecond.flip]
    constructor
    · rintro ⟨first, firstMember, second, secondMember, same, filled⟩
      obtain ⟨first, firstInside, rfl⟩ := mem_map.mp firstMember
      obtain ⟨second, secondInside, rfl⟩ := mem_map.mp secondMember
      exact ⟨first, mem_reverse.mp firstInside, second, mem_reverse.mp secondInside,
        Span.flip_injective same, filled⟩
    · rintro ⟨first, firstMember, second, secondMember, rfl, filled⟩
      exact ⟨first.flip, mem_map_of_mem (mem_reverse.mpr firstMember),
        second.flip, mem_map_of_mem (mem_reverse.mpr secondMember), rfl, filled⟩

/-! ### The complement of a list -/

/-- The spans between the spans of a list, from `start` on and up to `top`. -/
def gaps (top : Point) : Point → List (Span Point) → List (Span Point)
  | start, [] => [⟨start, top⟩]
  | start, span :: rest => ⟨start, span.lo⟩ :: gaps top span.hi rest

omit [LinearOrder Point] in
theorem length_gaps (top start : Point) (spans : List (Span Point)) :
    (gaps top start spans).length = spans.length + 1 := by
  induction spans generalizing start with
  | nil => rfl
  | cons span rest ih =>
    rw [gaps, length_cons, ih, length_cons]

omit [LinearOrder Point] in
theorem head?_gaps (top start : Point) (spans : List (Span Point)) :
    (gaps top start spans)[0]? = some ⟨start, (spans[0]?.map Span.lo).getD top⟩ := by
  cases spans <;> rfl

omit [LinearOrder Point] in
theorem getElem?_gaps_succ (top start : Point) (spans : List (Span Point)) (index : Nat) :
    (gaps top start spans)[index + 1]? =
      spans[index]?.map fun before => ⟨before.hi, (spans[index + 1]?.map Span.lo).getD top⟩ := by
  induction spans generalizing start index with
  | nil => rfl
  | cons span rest ih =>
    cases index with
    | zero =>
      rw [gaps, getElem?_cons_succ, head?_gaps]
      rfl
    | succ index =>
      rw [gaps, getElem?_cons_succ, ih]
      rfl

theorem mem_cover_gaps {start : Point}
    (forward : ∀ span ∈ spans, start ≤ span.lo ∧ span.lo ≤ span.hi ∧ span.hi ≤ top)
    (ascending : Ascending spans) (point : Point) :
    point ∈ cover (gaps top start spans) ↔ start ≤ point ∧ point < top ∧ point ∉ cover spans := by
  induction spans generalizing start with
  | nil => simp [gaps]
  | cons span rest ih =>
    obtain ⟨later, _⟩ := (ascending_cons _ _).mp ascending
    rw [gaps, mem_cover_cons, mem_cover_cons]
    have low : point < span.hi → point ∉ cover rest := by
      rintro below ⟨other, member, inside⟩
      exact absurd inside.1 (not_le.mpr (below.trans_le (later other member)))
    grind

/-- The gaps of an ascending list are spread when the list has no empty span above
`bottom`. -/
theorem spread_gaps {start : Point} (low : bottom ≤ start) (high : start ≤ top)
    (forward : ∀ span ∈ spans, start ≤ span.lo ∧ span.lo ≤ span.hi ∧ span.hi ≤ top)
    (filled : ∀ span ∈ spans, span.lo < span.hi ∨ span.hi = bottom)
    (ordered : spans.Pairwise fun first second =>
      first.hi ≤ second.lo ∧ (first.lo < first.hi → first.hi < second.lo))
    (apart : start = bottom ∨ ∀ span ∈ spans, start < span.lo) :
    Spread bottom top (gaps top start spans) ∧ ∀ gap ∈ gaps top start spans, start ≤ gap.lo := by
  induction spans generalizing start with
  | nil =>
    refine ⟨⟨?_, ?_, pairwise_singleton _ _⟩, ?_⟩
    · exact forall_mem_singleton.mpr ⟨low, high, le_rfl⟩
    · exact forall_mem_singleton.mpr (high.lt_or_eq.imp_right .inr)
    · exact forall_mem_singleton.mpr le_rfl
  | cons span rest ih =>
    obtain ⟨later, orderedTail⟩ := pairwise_cons.mp ordered
    obtain ⟨begins, runs, ends⟩ := forward span mem_cons_self
    have headFilled := filled span mem_cons_self
    have next : span.hi = bottom ∨ ∀ other ∈ rest, span.hi < other.lo :=
      headFilled.symm.imp_right fun positive other member => (later other member).2 positive
    obtain ⟨spread, above⟩ := ih ((low.trans begins).trans runs) ends
      (fun other member => ⟨(later other member).1, (forward other (mem_cons_of_mem _ member)).2⟩)
      (forall_mem_cons.mp filled).2 orderedTail next
    rw [gaps]
    refine ⟨⟨?_, ?_, pairwise_cons.mpr ⟨?_, spread.ordered⟩⟩, ?_⟩
    · exact forall_mem_cons.mpr ⟨⟨low, begins, runs.trans ends⟩, spread.inside⟩
    · refine forall_mem_cons.mpr ⟨begins.lt_or_eq.imp_right fun same => ?_, spread.edge⟩
      rcases apart with atBottom | strict
      · exact Or.inl (same ▸ atBottom)
      · exact absurd same (strict span mem_cons_self).ne
    · intro gap inside
      refine ⟨runs.trans (above gap inside), fun gapFilled _ => ?_⟩
      rcases headFilled with positive | empty
      · exact positive.trans_le (above gap inside)
      · -- An empty placeholder at `bottom` leaves no room for a gap before it.
        have : span.lo ≤ start := runs.trans (empty ▸ low)
        exact absurd gapFilled this.not_gt
    · exact forall_mem_cons.mpr ⟨le_rfl, fun gap inside =>
        begins.trans (runs.trans (above gap inside))⟩

end Order

end Spans
