import Mathlib.Logic.Relation

/-!
# Runs with an account

Events in any order lead from one state to another. Beside a state stands an account of the events that
led to it: a diary of what was done, or a list of what was lost. Each event is entered in the account as
it happens, by what the state is then. No account has a bearing on the state, so that it can say what the
state has forgotten.

## Main definitions

* `Leads` — events lead from one state to another, each of which is allowed
* `Annals` — a state with an account of the events that led to it

## Main results

* `Leads.foldl`, `Leads.any` — events one after the other lead to what they amount to
* `Leads.keeps` — what every event keeps holds wherever events lead to
* `Annals.leads_of_leads` — events lead to the same state whatever the account says
-/

namespace Montage

variable {σ ε α : Type}

/-- Events that are allowed lead, in any order, from one state to another. -/
def Leads (next : σ → ε → σ) (allowed : ε → Prop) : σ → σ → Prop :=
  Relation.ReflTransGen fun before after => ∃ event, allowed event ∧ after = next before event

namespace Leads

variable {next : σ → ε → σ} {allowed : ε → Prop} {first last : σ}

theorem foldl (events : List ε) (all : ∀ event ∈ events, allowed event) (state : σ) :
    Leads next allowed state (events.foldl next state) := by
  induction events generalizing state with
  | nil => exact .refl
  | cons event rest ih =>
    obtain ⟨here, others⟩ := List.forall_mem_cons.mp all
    exact .head ⟨event, here, rfl⟩ (ih others (next state event))

/-- Where every event is allowed, all events do so. -/
theorem any (events : List ε) (state : σ) :
    Leads next (fun _ => True) state (events.foldl next state) :=
  foldl events (fun _ _ => trivial) state

/-- What every event keeps, given how it has come so far, holds wherever events lead to. -/
theorem keeps (holds : σ → Prop) (leads : Leads next allowed first last) (h : holds first)
    (step : ∀ state event, Leads next allowed first state → allowed event → holds state →
      holds (next state event)) : holds last := by
  induction leads with
  | refl => exact h
  | tail before last ih =>
    obtain ⟨event, here, rfl⟩ := last
    exact step _ event before here ih

end Leads

/-- A state, and an account of the events that led to it. -/
structure Annals (σ α : Type) where
  state : σ
  account : α

namespace Annals

/-- What an event leads to when it is entered in the account. -/
def next (act : ε → σ → σ) (enter : ε → σ → α → α) (annals : Annals σ α) (event : ε) : Annals σ α where
  state := act event annals.state
  account := enter event annals.state annals.account

section Next

variable (act : ε → σ → σ) (enter : ε → σ → α → α) (annals : Annals σ α) (event : ε)

@[simp] theorem next_state : (annals.next act enter event).state = act event annals.state := rfl

@[simp] theorem next_account :
    (annals.next act enter event).account = enter event annals.state annals.account := rfl

end Next

/-- Whatever the account says, events lead to the same state, and so they do with another account. -/
theorem leads_of_leads {β : Type} {act : ε → σ → σ} {enter : ε → σ → α → α} {allowed : ε → Prop}
    {first last : Annals σ α} (leads : Leads (next act enter) allowed first last)
    (enter' : ε → σ → β → β) (account : β) :
    ∃ account', Leads (next act enter') allowed ⟨first.state, account⟩ ⟨last.state, account'⟩ := by
  let follows (annals : Annals σ α) : Prop := ∃ account',
    Leads (next act enter') allowed ⟨first.state, account⟩ ⟨annals.state, account'⟩
  have start : follows first := ⟨account, .refl⟩
  refine Leads.keeps follows leads start fun annals event _ here h => ?_
  obtain ⟨account', before⟩ := h
  exact ⟨_, before.tail ⟨event, here, rfl⟩⟩

end Annals

end Montage
