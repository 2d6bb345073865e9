import Mathlib
import Payroll.Key
import Payroll.Record.Reader

/-!
Computations that give a value or a fault, taken apart step by step.
-/

namespace Payroll.Result

variable {ε ε' α β γ : Type}

theorem bind_eq_ok {x : Except ε α} {f : α → Except ε β} {b : β} :
    (x >>= f) = .ok b ↔ ∃ a, x = .ok a ∧ f a = .ok b := by
  cases x with
  | error e =>
      constructor
      · intro h
        cases h
      · rintro ⟨_, h, _⟩
        cases h
  | ok a =>
      refine ⟨fun h => ⟨a, rfl, h⟩, ?_⟩
      rintro ⟨a', ha, h⟩
      cases ha
      exact h

theorem bind_eq_error {x : Except ε α} {f : α → Except ε β} {e : ε} :
    (x >>= f) = .error e ↔ x = .error e ∨ ∃ a, x = .ok a ∧ f a = .error e := by
  cases x with
  | error e' =>
      refine ⟨fun h => .inl (congrArg Except.error (Except.error.inj h)), ?_⟩
      rintro (h | ⟨_, h, _⟩)
      · exact congrArg Except.error (Except.error.inj h)
      · cases h
  | ok a =>
      refine ⟨fun h => .inr ⟨a, rfl, h⟩, ?_⟩
      rintro (h | ⟨a', ha, h⟩)
      · cases h
      · cases ha
        exact h

theorem bind_of_eq_ok {x : Except ε α} {f : α → Except ε β} {a : α} {r : Except ε β}
    (hx : x = .ok a) (hf : f a = r) : x >>= f = r := by
  rw [hx]
  exact hf

theorem pure_eq_ok {a b : α} : (pure a : Except ε α) = .ok b ↔ a = b :=
  ⟨Except.ok.inj, congrArg _⟩

theorem ok_of_toOption {x : Except ε α} {a : α} (h : x.toOption = some a) : x = .ok a := by
  cases x with
  | error e => cases h
  | ok a' => exact congrArg _ (Option.some.inj h)

theorem map_eq_ok {x : Except ε α} {f : α → β} {b : β} :
    x.map f = .ok b ↔ ∃ a, x = .ok a ∧ f a = b := by
  cases x <;> simp [Except.map]

theorem mapError_eq_ok {x : Except ε α} {f : ε → ε'} {a : α} :
    x.mapError f = .ok a ↔ x = .ok a := by
  cases x <;> simp [Except.mapError]

/-- Signals of arithmetic are faults, and its results are kept. -/
theorem signal_eq_ok {x : Except Decimal.Signal α} {a : α} :
    (liftM x : Except Fault α) = .ok a ↔ x = .ok a := by
  cases x with
  | error s => exact ⟨(nomatch ·), (nomatch ·)⟩
  | ok a' =>
      change (Except.ok a' : Except Fault α) = .ok a ↔ _
      simp

theorem ensure_eq_ok {c : Bool} {f : Fault} {u : Unit} : ensure c f = .ok u ↔ c = true := by
  cases c <;> simp [ensure]

theorem existing_eq_ok {o : Option α} {f : Fault} {a : α} : existing f o = .ok a ↔ o = some a := by
  cases o <;> simp [existing]

theorem mapM_cons_eq_ok {f : α → Except ε β} {a : α} {as : List α} {bs : List β} :
    (a :: as).mapM f = .ok bs ↔ ∃ b bs', f a = .ok b ∧ as.mapM f = .ok bs' ∧ bs = b :: bs' := by
  rw [List.mapM_cons, bind_eq_ok]
  constructor
  · rintro ⟨b, hb, h⟩
    obtain ⟨bs', hbs, h⟩ := bind_eq_ok.1 h
    exact ⟨b, bs', hb, hbs, (pure_eq_ok.1 h).symm⟩
  · rintro ⟨b, bs', hb, hbs, rfl⟩
    exact ⟨b, hb, bind_eq_ok.2 ⟨bs', hbs, rfl⟩⟩

theorem exists_of_mem_mapM {f : α → Except ε β} {as : List α} {bs : List β} {b : β}
    (h : as.mapM f = .ok bs) (hb : b ∈ bs) : ∃ a ∈ as, f a = .ok b := by
  induction as generalizing bs with
  | nil =>
      cases h
      cases hb
  | cons a as ih =>
      obtain ⟨b', bs', ha, hrest, rfl⟩ := mapM_cons_eq_ok.1 h
      rcases List.mem_cons.1 hb with rfl | hb
      · exact ⟨a, List.mem_cons_self, ha⟩
      · obtain ⟨a', ha', he⟩ := ih hrest hb
        exact ⟨a', List.mem_cons_of_mem _ ha', he⟩

theorem mapM_congr {f g : α → Except ε β} {as : List α} (h : ∀ a ∈ as, f a = g a) :
    as.mapM f = as.mapM g := by
  induction as with
  | nil => rfl
  | cons a as ih =>
      rw [List.mapM_cons, List.mapM_cons, h a List.mem_cons_self,
        ih fun b hb => h b (List.mem_cons_of_mem _ hb)]

theorem mapM_eq_map {f : α → Except ε β} {g : α → β} {as : List α} (h : ∀ a ∈ as, f a = .ok (g a)) :
    as.mapM f = .ok (as.map g) := by
  induction as with
  | nil => rfl
  | cons a as ih =>
      refine mapM_cons_eq_ok.2 ⟨g a, as.map g, h a List.mem_cons_self, ?_, rfl⟩
      exact ih fun b hb => h b (List.mem_cons_of_mem _ hb)

theorem forall₂_of_mapM {f : α → Except ε β} {as : List α} {bs : List β}
    (h : as.mapM f = .ok bs) : List.Forall₂ (fun a b => f a = .ok b) as bs := by
  induction as generalizing bs with
  | nil =>
      cases h
      exact .nil
  | cons a as ih =>
      obtain ⟨b, bs', ha, hrest, rfl⟩ := mapM_cons_eq_ok.1 h
      exact .cons ha (ih hrest)

/-- Two computations over the same members give results that are related one by one. -/
theorem forall₂_of_mapM₂ {f : α → Except ε β} {g : α → Except ε γ} {R : β → γ → Prop} {as : List α}
    {bs : List β} {cs : List γ} (hf : as.mapM f = .ok bs) (hg : as.mapM g = .ok cs)
    (hR : ∀ a ∈ as, ∀ b c, f a = .ok b → g a = .ok c → R b c) : List.Forall₂ R bs cs := by
  induction as generalizing bs cs with
  | nil =>
      cases hf
      cases hg
      exact .nil
  | cons a as ih =>
      obtain ⟨b, bs', hb, hbs, rfl⟩ := mapM_cons_eq_ok.1 hf
      obtain ⟨c, cs', hc, hcs, rfl⟩ := mapM_cons_eq_ok.1 hg
      exact .cons (hR a List.mem_cons_self b c hb hc)
        (ih hbs hcs fun a' ha' => hR a' (List.mem_cons_of_mem _ ha'))

theorem exists_mapM_eq_ok {f : α → Except ε β} {as : List α} :
    (∃ bs, as.mapM f = .ok bs) ↔ ∀ a ∈ as, ∃ b, f a = .ok b := by
  induction as with
  | nil =>
      constructor
      · rintro - a ha
        cases ha
      · exact fun _ => ⟨[], rfl⟩
  | cons a as ih =>
      rw [List.forall_mem_cons, ← ih]
      constructor
      · rintro ⟨bs, h⟩
        obtain ⟨b, bs', ha, hrest, -⟩ := mapM_cons_eq_ok.1 h
        exact ⟨⟨b, ha⟩, bs', hrest⟩
      · rintro ⟨⟨b, ha⟩, bs, hrest⟩
        exact ⟨b :: bs, mapM_cons_eq_ok.2 ⟨b, bs, ha, hrest, rfl⟩⟩

theorem exists_mapM_of_perm {f : α → Except ε β} {as as' : List α} {bs : List β}
    (h : as.mapM f = .ok bs) (hp : as.Perm as') : ∃ bs', as'.mapM f = .ok bs' ∧ bs.Perm bs' := by
  induction hp generalizing bs with
  | nil => exact ⟨bs, h, .refl _⟩
  | cons a _ ih =>
      obtain ⟨b, bs, hb, hrest, rfl⟩ := mapM_cons_eq_ok.1 h
      obtain ⟨bs', hrest', hp⟩ := ih hrest
      exact ⟨_, mapM_cons_eq_ok.2 ⟨b, bs', hb, hrest', rfl⟩, hp.cons b⟩
  | swap a a' as =>
      obtain ⟨b', bs, hb', hrest, rfl⟩ := mapM_cons_eq_ok.1 h
      obtain ⟨b, bs, hb, htail, rfl⟩ := mapM_cons_eq_ok.1 hrest
      exact ⟨_, mapM_cons_eq_ok.2 ⟨b, _, hb, mapM_cons_eq_ok.2 ⟨b', bs, hb', htail, rfl⟩, rfl⟩,
        .swap _ _ _⟩
  | trans _ _ ih ih' =>
      obtain ⟨bs', h', hp⟩ := ih h
      obtain ⟨bs'', h'', hp'⟩ := ih' h'
      exact ⟨bs'', h'', hp.trans hp'⟩

/-- Members that are written and read again one by one. -/
theorem mapM_map_eq_ok {f : β → Except ε α} {g : α → β} {as : List α}
    (h : ∀ a ∈ as, f (g a) = .ok a) : (as.map g).mapM f = .ok as := by
  rw [List.mapM_map]
  exact (mapM_eq_map h).trans (congrArg Except.ok as.map_id')

section Outcomes

variable {P P' : α → Prop} {Q : β → Prop} {F F' : ε → Prop} {x y : Except ε α}

/-- What is known of a result, and of a fault if there is none. -/
def EndsIn (P : α → Prop) (F : ε → Prop) : Except ε α → Prop
  | .ok a => P a
  | .error f => F f

/-- A result with a property, and no fault. -/
def Succeeds (P : α → Prop) (x : Except ε α) : Prop := ∃ a, x = .ok a ∧ P a

namespace EndsIn

theorem mono (h : EndsIn P F x) (hP : ∀ a, P a → P' a) (hF : ∀ f, F f → F' f) : EndsIn P' F' x := by
  cases x with
  | ok a => exact hP a h
  | error f => exact hF f h

theorem bind {g : α → Except ε β} (hx : EndsIn P F x) (hg : ∀ a, P a → EndsIn Q F (g a)) :
    EndsIn Q F (x >>= g) := by
  cases x with
  | ok a => exact hg a hx
  | error f => exact hx

end EndsIn

namespace Succeeds

theorem ok {a : α} (h : P a) : Succeeds P (.ok a : Except ε α) := ⟨a, rfl, h⟩

theorem mono (h : Succeeds P x) (hP : ∀ a, P a → P' a) : Succeeds P' x := by
  obtain ⟨a, hx, ha⟩ := h
  exact ⟨a, hx, hP a ha⟩

theorem bind {g : α → Except ε β} (h : Succeeds P x)
    (hg : ∀ a, x = .ok a → P a → Succeeds Q (g a)) : Succeeds Q (x >>= g) := by
  obtain ⟨a, rfl, ha⟩ := h
  exact hg a rfl ha

/-- Only what follows a success can end in a fault. -/
theorem endsIn {g : α → Except ε β} (h : Succeeds P x)
    (hg : ∀ a, x = .ok a → P a → EndsIn Q F (g a)) : EndsIn Q F (x >>= g) := by
  obtain ⟨a, rfl, ha⟩ := h
  exact hg a rfl ha

theorem signal {x : Except Decimal.Signal α} (h : Succeeds P x) :
    Succeeds P (liftM x : Except Fault α) := by
  obtain ⟨a, rfl, ha⟩ := h
  exact .ok ha

end Succeeds

end Outcomes

end Payroll.Result

namespace Payroll.Checked

variable {α β : Type}

theorem apply_eq_ok {f : Checked (α → β)} {x : Checked α} {b : β} :
    apply f x = .ok b ↔ ∃ g a, f = .ok g ∧ x = .ok a ∧ g a = b := by
  cases f <;> cases x <;> simp [apply]

theorem under_eq_ok {s : Step} {x : Checked α} {a : α} : under s x = .ok a ↔ x = .ok a := by
  cases x <;> simp [under]

theorem cons_eq_ok {x : Checked α} {xs : Checked (List α)} {as : List α} :
    cons x xs = .ok as ↔ ∃ a as', x = .ok a ∧ xs = .ok as' ∧ as = a :: as' := by
  cases x <;> cases xs <;> simp [cons, apply, Except.map, eq_comm]

end Payroll.Checked

namespace Payroll.Key

theorem check_eq_ok {label s t : String} : check label (.text s) = .ok t ↔ isSafe s = true ∧ t = s := by
  simp only [check]
  split
  · next h => simp [h, eq_comm]
  · next h => simp [h]

end Payroll.Key
