import Mathlib.Logic.Basic
import Montage.Failure

/-!
# What an action leaves behind

An action on a state either returns or fails, and keeps the state that it has reached in both
cases. `Ensures` says what holds then, and unfolds along the action; `Keeps` says that a property
of states survives the action however it ends; `FailsOnly` says in which ways it can fail, and `Resolves`
what holds after each of them.
-/

namespace Montage

variable {ε σ α β : Type}

/-- What returns has come past its first part. -/
theorem exists_of_bind_eq_ok {first : Except ε α} {next : α → Except ε β} {b : β}
    (h : first >>= next = .ok b) : ∃ a, first = .ok a ∧ next a = .ok b := by
  cases first with
  | error _ => cases h
  | ok a => exact ⟨a, rfl, h⟩

theorem ok_bind (a : α) (next : α → Except ε β) : (.ok a : Except ε α) >>= next = next a := rfl

/-- What holds of the value and the state of an action that returns, and of the state of one that
fails. -/
def Ensures (action : EStateM ε σ α) (state : σ) (returns : α → σ → Prop) (fails : σ → Prop) :
    Prop :=
  match action state with
  | .ok a next => returns a next
  | .error _ next => fails next

/-- The state behind an action, whether it returned or failed. -/
def leaves (action : EStateM ε σ α) (state : σ) : σ :=
  match action state with
  | .ok _ next => next
  | .error _ next => next

/-- Whether an action returns. -/
def succeeds (action : EStateM ε σ α) (state : σ) : Bool :=
  match action state with
  | .ok _ _ => true
  | .error _ _ => false

/-- What an action returns, if it does not fail. -/
def value? (action : EStateM ε σ α) (state : σ) : Option α :=
  match action state with
  | .ok a _ => some a
  | .error _ _ => none

/-- The failure of an action, if it fails. -/
def failure? (action : EStateM ε σ α) (state : σ) : Option ε :=
  match action state with
  | .ok _ _ => none
  | .error failure _ => some failure

section Ensures

variable {action : EStateM ε σ α} {state : σ} {returns returns' : α → σ → Prop}
  {fails fails' : σ → Prop}

theorem Ensures.mono (h : Ensures action state returns fails)
    (hr : ∀ a next, returns a next → returns' a next) (hf : ∀ next, fails next → fails' next) :
    Ensures action state returns' fails' := by
  unfold Ensures at h ⊢
  cases hrun : action state with
  | ok a next => rw [hrun] at h; exact hr a next h
  | error failure next => rw [hrun] at h; exact hf next h

theorem Ensures.and (h : Ensures action state returns fails)
    (h' : Ensures action state returns' fails') :
    Ensures action state (fun a next => returns a next ∧ returns' a next)
      (fun next => fails next ∧ fails' next) := by
  unfold Ensures at h h' ⊢
  cases hrun : action state <;> simp only [hrun] at h h' ⊢ <;> exact ⟨h, h'⟩

/-- What holds however an action ends holds of the state that it leaves. -/
theorem Ensures.leaves {holds : σ → Prop} (h : Ensures action state (fun _ => holds) holds) :
    holds (leaves action state) := by
  unfold Ensures at h
  unfold Montage.leaves
  cases hrun : action state <;> simpa only [hrun] using h

/-- An action ends in the state that it leaves. -/
theorem ensures_leaves : Ensures action state (fun _ next => next = Montage.leaves action state)
    (fun next => next = Montage.leaves action state) := by
  unfold Ensures Montage.leaves
  cases action state <;> rfl

/-- What an action returns plays no part in the state that it leaves. -/
theorem leaves_discard (action : EStateM ε σ α) (state : σ) :
    Montage.leaves (do let _ ← action) state = Montage.leaves action state := by
  have ran : (do let _ ← action : EStateM ε σ Unit) state =
      EStateM.bind action (fun _ => pure ()) state := rfl
  unfold Montage.leaves
  rw [ran, EStateM.bind]
  cases action state <;> rfl

/-- An action ends in one of two ways, and it is known in which. -/
theorem Ensures.known (h : Ensures action state returns fails) :
    Ensures action state (fun a next => succeeds action state = true ∧ returns a next)
      (fun next => succeeds action state = false ∧ fails next) := by
  unfold Ensures at h ⊢
  unfold succeeds
  cases hrun : action state <;> rw [hrun] at h <;> exact ⟨rfl, h⟩

/-- The state that an action leaves is as it says for the way in which it ended. -/
theorem Ensures.ends {returned : σ → Prop} (h : Ensures action state (fun _ => returned) fails) :
    succeeds action state = true ∧ returned (Montage.leaves action state) ∨
      succeeds action state = false ∧ fails (Montage.leaves action state) := by
  unfold Ensures at h
  unfold succeeds Montage.leaves
  cases hrun : action state with
  | ok _ next => exact .inl ⟨rfl, by rwa [hrun] at h⟩
  | error _ next => exact .inr ⟨rfl, by rwa [hrun] at h⟩

/-- An action that cannot fail returns. -/
theorem Ensures.exists_ok (h : Ensures action state returns fun _ => False) :
    ∃ a next, action state = .ok a next ∧ returns a next := by
  unfold Ensures at h
  cases hrun : action state with
  | ok a next => exact ⟨a, next, rfl, by rwa [hrun] at h⟩
  | error failure next =>
    rw [hrun] at h
    exact h.elim

/-- What holds of what an action that cannot fail returns, and of the state that it leaves. -/
theorem Ensures.exists_value (h : Ensures action state returns fun _ => False) :
    ∃ a, value? action state = some a ∧ returns a (Montage.leaves action state) := by
  obtain ⟨a, next, hrun, hnext⟩ := h.exists_ok
  unfold value? Montage.leaves
  rw [hrun]
  exact ⟨a, rfl, hnext⟩

/-- An action returns something, or it fails, and leaves a state as it says for that. -/
theorem Ensures.value (h : Ensures action state returns fails) :
    (∃ a, value? action state = some a ∧ returns a (Montage.leaves action state)) ∨
      value? action state = none ∧ fails (Montage.leaves action state) := by
  unfold Ensures at h
  unfold value? Montage.leaves
  cases hrun : action state with
  | ok a next => exact .inl ⟨a, rfl, by rwa [hrun] at h⟩
  | error _ next => exact .inr ⟨rfl, by rwa [hrun] at h⟩

/-- What holds of an action that returned. -/
theorem ensures_of_ok {a : α} {next : σ} (h : action state = .ok a next) :
    Ensures action state returns fails ↔ returns a next := by
  unfold Ensures
  rw [h]

theorem ensures_pure {a : α} :
    Ensures (pure a : EStateM ε σ α) state returns fails ↔ returns a state := Iff.rfl

theorem ensures_throw {failure : ε} :
    Ensures (throw failure : EStateM ε σ α) state returns fails ↔ fails state := Iff.rfl

theorem ensures_bind {next : α → EStateM ε σ β} {last : β → σ → Prop} :
    Ensures (action >>= next) state last fails ↔
      Ensures action state (fun a middle => Ensures (next a) middle last fails) fails := by
  unfold Ensures
  change (match EStateM.bind action next state with | .ok a s => last a s | .error _ s => fails s) ↔ _
  unfold EStateM.bind
  cases action state <;> rfl

/-- What the second of two actions ensures from everywhere, both of them ensure. -/
theorem Ensures.bind_of_forall {next : α → EStateM ε σ β} {last : β → σ → Prop}
    (h : ∀ a middle, Ensures (next a) middle last fun _ => True) :
    Ensures (action >>= next) state last fun _ => True := by
  rw [ensures_bind]
  unfold Ensures
  cases action state with
  | ok a middle => exact h a middle
  | error failure middle => trivial

/-- An action goes on from where the one before it has returned. -/
theorem bind_of_ok {next : α → EStateM ε σ β} {a : α} {middle : σ}
    (h : action state = .ok a middle) : (action >>= next) state = next a middle := by
  change EStateM.bind action next state = _
  unfold EStateM.bind
  rw [h]

/-- Whether two actions return is up to the second once the first has returned. -/
theorem succeeds_bind_of_ok {next : α → EStateM ε σ β} {a : α} {middle : σ}
    (h : action state = .ok a middle) : succeeds (action >>= next) state = succeeds (next a) middle := by
  unfold succeeds
  rw [bind_of_ok h]

/-- Two actions leave what the second leaves once the first has returned. -/
theorem leaves_bind_of_ok {next : α → EStateM ε σ β} {a : α} {middle : σ}
    (h : action state = .ok a middle) :
    Montage.leaves (action >>= next) state = Montage.leaves (next a) middle := by
  unfold Montage.leaves
  rw [bind_of_ok h]

/-- An action that cannot fail returns in the state that it leaves. -/
theorem Ensures.eq_ok {action : EStateM ε σ Unit} {returns : Unit → σ → Prop}
    (h : Ensures action state returns fun _ => False) :
    action state = .ok () (Montage.leaves action state) := by
  obtain ⟨_, next, hrun, -⟩ := h.exists_ok
  unfold Montage.leaves
  rw [hrun]

theorem ensures_map {f : α → β} {last : β → σ → Prop} :
    Ensures (f <$> action) state last fails ↔
      Ensures action state (fun a next => last (f a) next) fails := by
  unfold Ensures
  change (match EStateM.map f action state with | .ok a s => last a s | .error _ s => fails s) ↔ _
  unfold EStateM.map
  cases action state <;> rfl

theorem ensures_get {returns : σ → σ → Prop} :
    Ensures (get : EStateM ε σ σ) state returns fails ↔ returns state state := Iff.rfl

theorem ensures_set {next : σ} {returns : PUnit → σ → Prop} :
    Ensures (set next : EStateM ε σ PUnit) state returns fails ↔ returns ⟨⟩ next := Iff.rfl

theorem ensures_modify {f : σ → σ} {returns : PUnit → σ → Prop} :
    Ensures (modify f : EStateM ε σ PUnit) state returns fails ↔ returns ⟨⟩ (f state) := Iff.rfl

/-- What may fail without a state leaves the state as it is. -/
theorem ensures_liftM {state : σ} {result : Except Failure α} {returns : α → σ → Prop}
    {fails : σ → Prop} :
    Ensures (liftM result : EStateM Failure σ α) state returns fails ↔
      match result with
      | .ok a => returns a state
      | .error _ => fails state := by
  cases result <;> rfl

/-- What may fail without a state comes before an action. -/
theorem Ensures.liftM_bind {state : σ} {result : Except Failure α} {next : α → EStateM Failure σ β}
    {last : β → σ → Prop} {fails : σ → Prop}
    (goes : ∀ a, result = .ok a → Ensures (next a) state last fails) (failed : fails state) :
    Ensures (liftM result >>= next) state last fails := by
  rw [ensures_bind, ensures_liftM]
  cases result with
  | ok a => exact goes a rfl
  | error cause => exact failed

/-- A handler starts from the state in which the action failed. -/
theorem Ensures.tryCatch {handler : ε → EStateM ε σ α}
    (h : Ensures action state returns fun next => ∀ failure,
      Ensures (handler failure) next returns fails) :
    Ensures (tryCatch action handler) state returns fails := by
  unfold Ensures at h ⊢
  change (match EStateM.tryCatch action handler state with
    | .ok a s => returns a s | .error _ s => fails s)
  unfold EStateM.tryCatch
  cases hrun : action state with
  | ok a next => simpa only [hrun] using h
  | error failure next =>
    simp only [hrun] at h ⊢
    exact h failure

/-- Giving up on a failure leaves the state in which it came. -/
theorem leaves_tryCatch_pure {action : EStateM ε σ Unit} :
    Montage.leaves (tryCatch action fun _ => pure ()) state = Montage.leaves action state := by
  let same (next : σ) : Prop := next = Montage.leaves action state
  have caught : Ensures (tryCatch action fun _ => pure ()) state (fun _ => same) same :=
    Ensures.tryCatch (ensures_leaves.mono (fun _ _ h => h) fun _ h _ => h)
  exact caught.leaves

/-- What holds of the items that were tested so far, of those that met the condition, and of the state,
holds of them all. -/
theorem Ensures.filterM_tested {meets : α → EStateM ε σ Bool} {holds : List α → List α → σ → Prop}
    {items : List α}
    (each : ∀ tested found a rest state, items = tested ++ a :: rest → holds tested found state →
      Ensures (meets a) state
        (fun met next => holds (tested ++ [a]) (if met then found ++ [a] else found) next) fails)
    (h : holds [] [] state) : Ensures (items.filterM meets) state (holds items) fails := by
  have auxiliary (rest found tested : List α) (state : σ) (split : items = tested ++ rest)
      (h : holds tested found.reverse state) :
      Ensures (rest.filterAuxM meets found) state (fun found => holds items found.reverse) fails := by
    induction rest generalizing found tested state with
    | nil =>
      rw [List.append_nil] at split
      exact split ▸ h
    | cons a rest ih =>
      refine ensures_bind.mpr ((each tested found.reverse a rest state split h).mono
        (fun met next hnext => ?_) fun _ => id)
      refine ih _ (tested ++ [a]) next (by rw [split, List.append_cons]) ?_
      cases met with
      | true => simpa using hnext
      | false => exact hnext
  exact ensures_bind.mpr (auxiliary items [] [] state rfl h)

/-- What holds of the items that met a condition so far, and of the state, holds of them all. -/
theorem Ensures.filterM {meets : α → EStateM ε σ Bool} {holds : List α → σ → Prop}
    (each : ∀ found a state, holds found state →
      Ensures (meets a) state (fun met next => holds (if met then found ++ [a] else found) next)
        fails) (items : List α) (h : holds [] state) :
    Ensures (items.filterM meets) state holds fails :=
  Ensures.filterM_tested (fun _ found a _ state _ => each found a state) h

/-- An action that cannot return fails. -/
theorem Ensures.not_succeeds (h : Ensures action state (fun _ _ => False) fails) :
    succeeds action state = false := by
  rcases h.ends with ⟨-, never⟩ | ⟨failed, -⟩
  · exact never.elim
  · exact failed

/-- A loop returns if each of its turns does; what holds between the turns is about the items that
are left. -/
theorem Ensures.forIn {visit : α → PUnit → EStateM ε σ (ForInStep PUnit)}
    (holds : List α → σ → Prop)
    (turn : ∀ item rest state, holds (item :: rest) state → Ensures (visit item ⟨⟩) state
      (fun step next => step = .yield ⟨⟩ ∧ holds rest next) fails)
    {items : List α} (h : holds items state) :
    Ensures (forIn items ⟨⟩ visit) state (fun _ => holds []) fails := by
  induction items generalizing state with
  | nil => exact h
  | cons item rest ih =>
    rw [List.forIn_cons, ensures_bind]
    refine (turn item rest state h).mono ?_ fun _ fails => fails
    rintro _ next ⟨rfl, hnext⟩
    exact ih hnext

end Ensures

/-- A property of states survives an action, whether it returns or fails. -/
def Keeps (holds : σ → Prop) (action : EStateM ε σ α) : Prop :=
  ∀ state, holds state → Ensures action state (fun _ => holds) holds

namespace Keeps

variable {holds : σ → Prop}

protected theorem pure {a : α} : Keeps holds (pure a : EStateM ε σ α) := fun _ h => h

protected theorem throw {failure : ε} : Keeps holds (throw failure : EStateM ε σ α) :=
  fun _ h => h

protected theorem bind {action : EStateM ε σ α} {next : α → EStateM ε σ β}
    (first : Keeps holds action) (then' : ∀ a, Keeps holds (next a)) :
    Keeps holds (action >>= next) := fun state h =>
  ensures_bind.mpr ((first state h).mono (fun a middle hm => then' a middle hm) fun _ hf => hf)

protected theorem forM {visit : α → EStateM ε σ PUnit} (each : ∀ a, Keeps holds (visit a))
    (items : List α) : Keeps holds (items.forM visit) := by
  induction items with
  | nil => exact Keeps.pure
  | cons a rest ih => exact (each a).bind fun _ => ih

protected theorem forIn {visit : α → β → EStateM ε σ (ForInStep β)}
    (each : ∀ a b, Keeps holds (visit a b)) (items : List α) (first : β) :
    Keeps holds (forIn items first visit) := by
  induction items generalizing first with
  | nil => exact Keeps.pure
  | cons a rest ih =>
    rw [List.forIn_cons]
    refine (each a first).bind fun step => ?_
    cases step with
    | done last => exact Keeps.pure
    | yield next => exact ih next

protected theorem filterM {meets : α → EStateM ε σ Bool} (items : List α)
    (each : ∀ a ∈ items, Keeps holds (meets a)) : Keeps holds (items.filterM meets) := by
  have auxiliary (found : List α) : Keeps holds (items.filterAuxM meets found) := by
    induction items generalizing found with
    | nil => exact Keeps.pure
    | cons a rest ih =>
      exact (each a List.mem_cons_self).bind fun _ =>
        ih (fun b hb => each b (List.mem_cons_of_mem _ hb)) _
  exact (auxiliary []).bind fun _ => Keeps.pure

protected theorem leaves {action : EStateM ε σ α} (keeps : Keeps holds action) {state : σ}
    (h : holds state) : holds (Montage.leaves action state) :=
  (keeps state h).leaves

end Keeps

/-- An action that fails does so in one of some ways. -/
def FailsOnly (action : EStateM ε σ α) (state : σ) (ways : ε → Prop) : Prop :=
  match action state with
  | .ok _ _ => True
  | .error failure _ => ways failure

section FailsOnly

variable {ways : ε → Prop} {action : EStateM ε σ α} {state : σ}

/-- An action that does not fail at all. -/
theorem Ensures.failsOnly {returns : α → σ → Prop}
    (h : Ensures action state returns fun _ => False) : FailsOnly action state ways := by
  obtain ⟨a, next, hrun, -⟩ := h.exists_ok
  unfold FailsOnly
  rw [hrun]
  trivial

theorem FailsOnly.mono {ways' : ε → Prop} (h : FailsOnly action state ways)
    (wider : ∀ failure, ways failure → ways' failure) : FailsOnly action state ways' := by
  unfold FailsOnly at h ⊢
  cases hrun : action state with
  | ok _ _ => trivial
  | error failure _ =>
    rw [hrun] at h
    exact wider failure h

/-- One action after another fails in the ways of both. -/
theorem failsOnly_bind {next : α → EStateM ε σ β} :
    FailsOnly (action >>= next) state ways ↔
      FailsOnly action state ways ∧
        Ensures action state (fun a middle => FailsOnly (next a) middle ways) fun _ => True := by
  unfold FailsOnly Ensures
  change (match EStateM.bind action next state with
    | .ok _ _ => True | .error failure _ => ways failure) ↔ _
  unfold EStateM.bind
  cases action state with
  | ok a middle => exact (iff_of_eq (true_and _)).symm
  | error failure middle => exact (iff_of_eq (and_true _)).symm

theorem FailsOnly.bind {next : α → EStateM ε σ β} (first : FailsOnly action state ways)
    (then' : ∀ a middle, FailsOnly (next a) middle ways) :
    FailsOnly (action >>= next) state ways := by
  refine failsOnly_bind.mpr ⟨first, ?_⟩
  unfold Ensures
  cases action state with
  | ok a middle => exact then' a middle
  | error failure middle => trivial

theorem FailsOnly.forIn {visit : α → β → EStateM ε σ (ForInStep β)}
    (each : ∀ a b state, FailsOnly (visit a b) state ways) (items : List α) (first : β)
    (state : σ) : FailsOnly (forIn items first visit) state ways := by
  induction items generalizing first state with
  | nil => trivial
  | cons a rest ih =>
    rw [List.forIn_cons]
    apply (each a first state).bind
    intro step middle
    cases step with
    | done last => trivial
    | yield next => exact ih next middle

end FailsOnly

/-- What holds of the value and the state of an action that returns, and of the failure and the state
of one that fails. -/
def Resolves (action : EStateM ε σ α) (state : σ) (returns : α → σ → Prop) (fails : ε → σ → Prop) :
    Prop :=
  match action state with
  | .ok a next => returns a next
  | .error failure next => fails failure next

section Resolves

variable {action : EStateM ε σ α} {state : σ} {returns returns' : α → σ → Prop}
  {fails fails' : ε → σ → Prop}

theorem Resolves.mono (h : Resolves action state returns fails)
    (hr : ∀ a next, returns a next → returns' a next)
    (hf : ∀ failure next, fails failure next → fails' failure next) :
    Resolves action state returns' fails' := by
  unfold Resolves at h ⊢
  cases hrun : action state with
  | ok a next => rw [hrun] at h; exact hr a next h
  | error failure next => rw [hrun] at h; exact hf failure next h

theorem resolves_pure {a : α} :
    Resolves (pure a : EStateM ε σ α) state returns fails ↔ returns a state := Iff.rfl

theorem resolves_throw {failure : ε} :
    Resolves (throw failure : EStateM ε σ α) state returns fails ↔ fails failure state := Iff.rfl

/-- What holds of an action that failed. -/
theorem resolves_of_error {failure : ε} {next : σ} (h : action state = .error failure next) :
    Resolves action state returns fails ↔ fails failure next := by
  unfold Resolves
  rw [h]

theorem resolves_bind {next : α → EStateM ε σ β} {last : β → σ → Prop} :
    Resolves (action >>= next) state last fails ↔
      Resolves action state (fun a middle => Resolves (next a) middle last fails) fails := by
  unfold Resolves
  change (match EStateM.bind action next state with
    | .ok a s => last a s | .error failure s => fails failure s) ↔ _
  unfold EStateM.bind
  cases action state <;> rfl

theorem resolves_iff_ensures {fails : σ → Prop} :
    Resolves action state returns (fun _ => fails) ↔ Ensures action state returns fails := Iff.rfl

/-- It is known in which ways an action fails, and what holds then. -/
theorem FailsOnly.resolves {ways : ε → Prop} {left : σ → Prop} (h : FailsOnly action state ways)
    (h' : Ensures action state returns left) :
    Resolves action state returns fun failure next => ways failure ∧ left next := by
  unfold FailsOnly at h
  unfold Ensures at h'
  unfold Resolves
  cases hrun : action state with
  | ok _ _ => rwa [hrun] at h'
  | error _ _ =>
    rw [hrun] at h h'
    exact ⟨h, h'⟩

/-- What an action resolves to is what it comes to. -/
theorem resolves_self : Resolves action state (fun a next => action state = .ok a next)
    (fun failure next => action state = .error failure next) := by
  unfold Resolves
  cases action state <;> rfl

/-- An action ends in one way, and it is known in which. -/
theorem Resolves.known (h : Resolves action state returns fails) :
    Resolves action state (fun a next => action state = .ok a next ∧ returns a next)
      (fun failure next => action state = .error failure next ∧ fails failure next) := by
  unfold Resolves at h ⊢
  cases hrun : action state <;> rw [hrun] at h <;> exact ⟨rfl, h⟩

/-- A handler starts from the failure and the state in which it came. -/
theorem Resolves.tryCatch {handler : ε → EStateM ε σ α}
    (h : Resolves action state returns fun failure next =>
      Resolves (handler failure) next returns fails) :
    Resolves (tryCatch action handler) state returns fails := by
  unfold Resolves at h ⊢
  change (match EStateM.tryCatch action handler state with
    | .ok a s => returns a s | .error failure s => fails failure s)
  unfold EStateM.tryCatch
  cases hrun : action state with
  | ok a next => simpa only [hrun] using h
  | error failure next =>
    simp only [hrun] at h ⊢
    exact h

/-- What an action resolves to holds of its failure, if it fails, and of the state that it leaves. -/
theorem Resolves.leaves {holds : Option ε → σ → Prop}
    (h : Resolves action state (fun _ => holds none) fun failure => holds (some failure)) :
    holds (failure? action state) (Montage.leaves action state) := by
  unfold Resolves at h
  unfold failure? Montage.leaves
  cases hrun : action state <;> rwa [hrun] at h

/-- What may fail for causes of its own comes before an action. -/
theorem Resolves.liftM_mapError_bind {ε : Type} {state : σ} {cause : ε → Failure} {result : Except ε α}
    {next : α → EStateM Failure σ β} {last : β → σ → Prop} {fails : Failure → σ → Prop}
    (goes : ∀ a, result = .ok a → Resolves (next a) state last fails)
    (failed : ∀ e, result = .error e → fails (cause e) state) :
    Resolves (liftM (result.mapError cause) >>= next) state last fails := by
  cases result with
  | ok a => exact goes a rfl
  | error e => exact failed e rfl

/-- An action that does not fail comes before another. -/
theorem Ensures.resolves_bind {next : α → EStateM ε σ β} {last : β → σ → Prop}
    (h : Ensures action state returns fun _ => False)
    (then' : ∀ a middle, returns a middle → Resolves (next a) middle last fails) :
    Resolves (action >>= next) state last fails := by
  obtain ⟨a, middle, hrun, hmiddle⟩ := h.exists_ok
  unfold Resolves
  rw [bind_of_ok hrun]
  exact then' a middle hmiddle

end Resolves

end Montage
