import Mathlib
import Payroll.Command.Basic

/-!
How commands run: what their arguments read from a line, and what each action does to a session.
-/

namespace Payroll.Command

variable {α β : Type}

section Reading

variable {texts : List String} {read : String → Option α} {n : Nat} {g : Given}

theorem Arguments.read_seq {x : Arguments (α → β)} {y : Arguments α} {f : α → β} {a : α}
    (hx : x.read n g = some f) (hy : y.read (n + x.words.length) g = some a) :
    (x <*> y).read n g = some (f a) := by
  change (x.read n g).bind (fun f => (y.read (n + x.words.length) g).bind fun a => some (f a)) = _
  rw [hx, Option.bind_some, hy, Option.bind_some]

theorem read_option {w : String} {a : α} (hgiven : g.last? (texts.headD "") = some w)
    (hread : read w = some a) : (option texts read).read n g = some (some a) := by
  unfold option
  dsimp only
  rw [hgiven]
  exact congrArg (Option.map some) hread

end Reading

/-- The result of an action, and the session it leaves. -/
def outcome (x : Action α) (s : Session) : Except Stop α × Session := x.run.run s

variable {x : Action α} {s s' : Session}

/-- What follows an action starts from what it leaves, if it does not stop. -/
theorem outcome_bind (x : Action α) (f : α → Action β) (s : Session) :
    outcome (x >>= f) s = match outcome x s with
      | (.ok a, s') => outcome (f a) s'
      | (.error e, s') => (.error e, s') := by
  change (match outcome x s with | (r, s') => ExceptT.bindCont f r s') = _
  rcases outcome x s with ⟨_ | a, s'⟩ <;> rfl

theorem outcome_bind_ok {a : α} (h : outcome x s = (.ok a, s')) (f : α → Action β) :
    outcome (x >>= f) s = outcome (f a) s' := by
  rw [outcome_bind, h]

theorem outcome_tryCatch (x : Action α) (f : Stop → Action α) (s : Session) :
    outcome (tryCatch x f) s = match outcome x s with
      | (.ok a, s') => (.ok a, s')
      | (.error e, s') => outcome (f e) s' := by
  cases h : outcome x s with
  | mk r s' =>
      have hrun : StateT.run x s = (r, s') := h
      simp only [outcome, tryCatch, tryCatchThe, MonadExceptOf.tryCatch, ExceptT.tryCatch,
        ExceptT.run_mk, StateT.run_bind, hrun]
      cases r <;> rfl

theorem outcome_config (s : Session) : outcome config s = (.ok s.installation.config, s) := rfl

theorem outcome_setConfig (c : Configuration) (s : Session) : outcome (setConfig c) s =
    (.ok (), { s with installation := { s.installation with config := c } }) := rfl

theorem outcome_expecting (r : Except Fault α) (s : Session) :
    outcome (expecting r) s = (r.mapError Stop.fault, s) := by
  cases r <;> rfl

theorem outcome_sayAll (lines : List String) (s : Session) : outcome (sayAll lines) s =
    (.ok (), { s with
      printed := lines.foldl (fun printed line => printed ++ (line ++ "\n")) s.printed }) := by
  induction lines generalizing s with
  | nil => rfl
  | cons line lines ih => exact ih { s with printed := s.printed ++ (line ++ "\n") }

end Payroll.Command
