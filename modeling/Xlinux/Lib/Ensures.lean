/-
This file has rules for code that changes a state and may fail: what holds of the
result and the state whenever the code does not fail. Code that fails ensures
everything, so these rules do not say that anything is returned; a second set of
rules does.
-/

namespace Hoare

variable {State Error α β : Type}
variable {change : State → State}

/-- If the code returns, then with a value and a state that have some property. -/
def Ensures (code : StateT State (Except Error) α) (state : State) (post : α → State → Prop) :
    Prop :=
  ∀ value after, code state = .ok (value, after) → post value after

variable {code : StateT State (Except Error) α} {rest : α → StateT State (Except Error) β}
  {state : State} {value : α} {post middle : α → State → Prop} {result : β → State → Prop}

/-- Code that returns goes on with what it returns. -/
theorem bind_of_ok {after : State} (ran : code state = .ok (value, after)) :
    (code >>= rest) state = rest value after := by
  show (code state >>= fun pair => rest pair.1 pair.2) = _
  rw [ran]
  rfl

theorem bind_of_error {error : Error} (fails : code state = .error error) :
    (code >>= rest) state = .error error := by
  show (code state >>= fun pair => rest pair.1 pair.2) = _
  rw [fails]
  rfl

theorem get_bind {rest : State → StateT State (Except Error) β} :
    (get >>= rest) state = rest state state :=
  rfl

theorem modify_bind {rest : PUnit → StateT State (Except Error) β} :
    (modify change >>= rest) state = rest ⟨⟩ (change state) :=
  rfl

theorem Ensures.bind (first : Ensures code state middle)
    (next : ∀ value after, middle value after → Ensures (rest value) after result) :
    Ensures (code >>= rest) state result := by
  intro value after ran
  have unfolded : (code state >>= fun pair => rest pair.1 pair.2) = .ok (value, after) := ran
  cases start : code state with
  | error error =>
    rw [start] at unfolded
    cases unfolded
  | ok pair =>
    rw [start] at unfolded
    exact next pair.1 pair.2 (first pair.1 pair.2 start) value after unfolded

theorem Ensures.mono (ran : Ensures code state middle)
    (weaker : ∀ value after, middle value after → post value after) : Ensures code state post :=
  fun value after same => weaker value after (ran value after same)

theorem Ensures.and {other : α → State → Prop} (one : Ensures code state post)
    (more : Ensures code state other) :
    Ensures code state fun value after => post value after ∧ other value after :=
  fun value after ran => ⟨one value after ran, more value after ran⟩

theorem ensures_pure (holds : post value state) :
    Ensures (pure value : StateT State (Except Error) α) state post := by
  intro returned after ran
  cases ran
  exact holds

/-- Code that returns a fixed value in the end. -/
theorem Ensures.bind_pure {holds : State → Prop}
    (ran : Ensures code state fun _ after => holds after) (value : β) :
    Ensures (code >>= fun _ => pure value) state fun result after => result = value ∧ holds after :=
  ran.bind fun _ _ held => ensures_pure ⟨rfl, held⟩

theorem ensures_throw {error : Error} :
    Ensures (throw error : StateT State (Except Error) α) state post :=
  fun _ _ ran => nomatch ran

/-- Code that fails on a condition goes on without it. -/
theorem ensures_guard {condition : Prop} [Decidable condition] {error : Error}
    (next : ¬condition → Ensures code state post) :
    Ensures (if condition then throw error else code) state post := by
  split
  case isTrue => exact ensures_throw
  case isFalse holds => exact next holds

/-- Code that reads the state goes on with it. -/
theorem ensures_get {rest : State → StateT State (Except Error) β}
    (next : Ensures (rest state) state result) : Ensures (get >>= rest) state result :=
  next

/-- Code that changes the state by a function goes on with the new state. -/
theorem ensures_modify {rest : PUnit → StateT State (Except Error) β}
    (next : Ensures (rest ⟨⟩) (change state) result) :
    Ensures (modify change >>= rest) state result :=
  next

theorem ensures_modify_last {post : PUnit → State → Prop} (holds : post ⟨⟩ (change state)) :
    Ensures (modify change : StateT State (Except Error) PUnit) state post := by
  intro _ after ran
  cases ran
  exact holds

/-- Code that does not use the state. -/
theorem ensures_lift {code : Except Error α}
    (next : ∀ value, code = .ok value → Ensures (rest value) state result) :
    Ensures ((liftM code : StateT State (Except Error) α) >>= rest) state result := by
  cases same : code with
  | error error => exact fun _ _ ran => nomatch ran
  | ok value => exact next value same

/-! ### Code that returns -/

/-- The code returns, with a value and a state that have some property. -/
def Returns (code : StateT State (Except Error) α) (state : State) (post : α → State → Prop) :
    Prop :=
  ∃ value after, code state = .ok (value, after) ∧ post value after

theorem Returns.bind (first : Returns code state middle)
    (next : ∀ value after, middle value after → Returns (rest value) after result) :
    Returns (code >>= rest) state result := by
  obtain ⟨value, after, ran, holds⟩ := first
  obtain ⟨final, last, ranNext, ends⟩ := next value after holds
  exact ⟨final, last, (bind_of_ok ran).trans ranNext, ends⟩

/-- Code that runs like other code. -/
theorem Returns.of_eq {other : StateT State (Except Error) α} {start : State}
    (same : code state = other start) (ran : Returns other start post) :
    Returns code state post := by
  rwa [Returns, same]

theorem Returns.mono (ran : Returns code state middle)
    (weaker : ∀ value after, middle value after → post value after) : Returns code state post := by
  obtain ⟨value, after, returns, holds⟩ := ran
  exact ⟨value, after, returns, weaker value after holds⟩

theorem Returns.ensures (ran : Returns code state post) : Ensures code state post := by
  obtain ⟨_, _, returns, holds⟩ := ran
  intro result last same
  cases returns.symm.trans same
  exact holds

theorem returns_pure (holds : post value state) :
    Returns (pure value : StateT State (Except Error) α) state post :=
  ⟨value, state, rfl, holds⟩

theorem returns_get {rest : State → StateT State (Except Error) β}
    (next : Returns (rest state) state result) : Returns (get >>= rest) state result :=
  next

theorem returns_modify {rest : PUnit → StateT State (Except Error) β}
    (next : Returns (rest ⟨⟩) (change state) result) :
    Returns (modify change >>= rest) state result :=
  next

theorem returns_modify_last {post : PUnit → State → Prop} (holds : post ⟨⟩ (change state)) :
    Returns (modify change : StateT State (Except Error) PUnit) state post :=
  ⟨⟨⟩, change state, rfl, holds⟩

end Hoare
