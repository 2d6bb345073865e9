import Mathlib
import Payroll.Command.Program
import Payroll.Proofs.CommandRuns
import Payroll.Proofs.Results

/-!
How actions of commands end: which faults stop them, and what they leave behind. The program ends as the
command that its line names.
-/

namespace Payroll.Command

open Result

variable {α β : Type} {i : Installation} {F G : Fault → Prop} {Q R : α → Prop}
  {I J : Installation → Prop} {x y : Action α}

/-- In an installation, which it leaves alone, an action has such results and such faults. -/
def Looks (i : Installation) (F : Fault → Prop) (x : Action α) (Q : α → Prop) : Prop :=
  ∀ s : Session, s.installation = i → (outcome x s).2.installation = i ∧
    (∀ a, (outcome x s).1 = .ok a → Q a) ∧ ∀ f, (outcome x s).1 = .error (.fault f) → F f

/-- An action on an installation leaves one with a property and has such faults. -/
def Ends (I : Installation → Prop) (F : Fault → Prop) (i : Installation) (x : Action α) : Prop :=
  ∀ s : Session, s.installation = i → I (outcome x s).2.installation ∧
    ∀ f, (outcome x s).1 = .error (.fault f) → F f

/-! ### Steps that only look -/

namespace Looks

theorem pure {a : α} (h : Q a) : Looks i F (pure a) Q :=
  fun _ hs => ⟨hs, fun _ ha => Except.ok.inj ha ▸ h, fun _ hf => nomatch hf⟩

theorem bind {f : α → Action β} {R : β → Prop} (hx : Looks i F x Q)
    (hf : ∀ a, Q a → Looks i F (f a) R) : Looks i F (x >>= f) R := by
  intro s hs
  obtain ⟨hstate, hresult, hfault⟩ := hx s hs
  rw [outcome_bind]
  rcases h : outcome x s with ⟨e | a, s'⟩
  · rw [h] at hstate hfault
    refine ⟨hstate, by rintro _ ⟨⟩, fun f hf => hfault f ?_⟩
    exact congrArg Except.error (Except.error.inj hf)
  · rw [h] at hstate hresult
    exact hf a (hresult a rfl) s' hstate

theorem ends (h : Looks i F x Q) (hi : I i) : Ends I F i x :=
  fun s hs => ⟨(h s hs).1.symm ▸ hi, (h s hs).2.2⟩

theorem endsBind {f : α → Action β} (hx : Looks i F x Q) (hi : I i)
    (hf : ∀ a, Q a → Ends I F i (f a)) : Ends I F i (x >>= f) := by
  intro s hs
  obtain ⟨hstate, hresult, hfault⟩ := hx s hs
  rw [outcome_bind]
  rcases h : outcome x s with ⟨e | a, s'⟩
  · rw [h] at hstate hfault
    refine ⟨hstate.symm ▸ hi, fun f hf => hfault f ?_⟩
    exact congrArg Except.error (Except.error.inj hf)
  · rw [h] at hstate hresult
    exact hf a (hresult a rfl) s' hstate

theorem ite {c : Prop} [Decidable c] (hx : c → Looks i F x Q) (hy : ¬c → Looks i F y Q) :
    Looks i F (if c then x else y) Q := by
  split
  · next h => exact hx h
  · next h => exact hy h

/-- What follows a check that refuses the line. -/
theorem refusing {c : Prop} [Decidable c] {x : Action Unit} {f : Unit → Action β} {R : β → Prop}
    (hx : Looks i F x fun _ => False) (hf : ¬c → Looks i F (f ()) R) :
    Looks i F (if c then x >>= f else f ()) R :=
  ite (fun _ => hx.bind fun _ => False.elim) hf

end Looks

theorem Ends.refusing {c : Prop} [Decidable c] {x : Action Unit} {f : Unit → Action β} (hi : I i)
    (hx : Looks i F x fun _ => False) (hf : ¬c → Ends I F i (f ())) :
    Ends I F i (if c then x >>= f else f ()) := by
  split
  · exact hx.endsBind hi fun _ => False.elim
  · next h => exact hf h

theorem Ends.mono (h : Ends I F i x) (hI : ∀ j, I j → J j) (hF : ∀ f, F f → G f) : Ends J G i x :=
  fun s hs => ⟨hI _ (h s hs).1, fun f hf => hF f ((h s hs).2 f hf)⟩

theorem looks_throw {e : Stop} (h : ∀ f, e ≠ .fault f) : Looks i F (throw e : Action α) Q :=
  fun _ hs => ⟨hs, by rintro _ ⟨⟩, fun f hf => absurd (Except.error.inj hf) (h f)⟩

theorem looks_refuse (message : String) : Looks i F (refuse message : Action α) Q :=
  looks_throw (by nofun)

theorem looks_fail (message : String) : Looks i F (fail message : Action α) Q :=
  looks_throw (by nofun)

theorem looks_modify {g : Session → Session} (h : ∀ s, (g s).installation = s.installation) :
    Looks i F (modify g : Action Unit) fun _ => True :=
  fun s hs => ⟨(h s).trans hs, fun _ _ => trivial, fun _ hf => nomatch hf⟩

theorem looks_get : Looks i F (get : Action Session) fun s => s.installation = i :=
  fun _ hs => ⟨hs, fun _ ha => Except.ok.inj ha ▸ hs, fun _ hf => nomatch hf⟩

theorem looks_print (text : String) : Looks i F (print text) fun _ => True :=
  looks_modify fun _ => rfl

theorem looks_say (line : String) : Looks i F (say line) fun _ => True := looks_print _

theorem looks_sayAll (lines : List String) : Looks i F (sayAll lines) fun _ => True := by
  intro s hs
  rw [outcome_sayAll]
  exact ⟨hs, fun _ _ => trivial, fun _ hf => nomatch hf⟩

theorem looks_expecting {r : Except Fault α} (h : EndsIn Q F r) : Looks i F (expecting r) Q := by
  intro s hs
  rw [outcome_expecting]
  cases r with
  | ok a => exact ⟨hs, fun _ ha => Except.ok.inj ha ▸ h, fun _ hf => nomatch hf⟩
  | error f =>
      refine ⟨hs, by rintro _ ⟨⟩, ?_⟩
      rintro _ ⟨⟩
      exact h

theorem looks_explainingAs {wording : Fault → String} {expected : Fault → Bool}
    {r : Except Fault α} (h : EndsIn Q (fun f => expected f = true ∨ F f) r) :
    Looks i F (explainingAs wording expected r) Q := by
  unfold explainingAs
  cases r with
  | ok a => exact .pure h
  | error f =>
      refine .ite (fun _ => looks_fail _) fun hf => ?_
      exact looks_expecting (r := .error f) (h.resolve_left hf)

theorem looks_config : Looks i F config fun c => c = i.config :=
  looks_get.bind fun _ hs => .pure (hs ▸ rfl)

theorem looks_data {path : String} (h : i.dataPath = .ok path) :
    Looks i F data fun d => d = i.directory path := by
  refine looks_get.bind fun s hs => ?_
  subst hs
  have hpath : EndsIn (fun a => a = path) F s.installation.dataPath := h ▸ rfl
  exact (looks_expecting hpath).bind fun a ha => .pure (ha ▸ rfl)

theorem looks_confirm (question : String) : Looks i F (confirm question) fun _ => True := by
  refine looks_get.bind fun s _ => ?_
  rcases answers (question ++ " [y/N]: ") s.typed with ⟨printed, consent, left⟩
  dsimp only
  have hleft : Looks i F (modify fun s => { s with typed := left } : Action Unit) fun _ => True :=
    looks_modify fun _ => rfl
  have hunanswered :
      Looks i F (modify fun s => { s with unanswered := true } : Action Unit) fun _ => True :=
    looks_modify fun _ => rfl
  refine (looks_print _).bind fun _ _ => hleft.bind fun _ _ => ?_
  cases consent with
  | given => exact .pure trivial
  | declined => exact looks_throw (by nofun)
  | unclear => exact hunanswered.bind fun _ _ => looks_throw (by nofun)

/-! ### Steps that change an installation -/

theorem ends_setConfig {c : Configuration} {f : Unit → Action β}
    (h : Ends I F { i with config := c } (f ())) : Ends I F i (setConfig c >>= f) := by
  intro s hs
  rw [outcome_bind_ok (outcome_setConfig c s)]
  exact h _ (by rw [hs])

theorem ends_setData {path : String} {d : DataDirectory} {f : Unit → Action β}
    (hpath : i.dataPath = .ok path) (h : Ends I F (i.putDirectory path d) (f ())) :
    Ends I F i (setData d >>= f) := by
  intro s hs
  subst hs
  have hset : outcome (setData d) s =
      (.ok (), { s with installation := s.installation.putDirectory path d }) := by
    have hexpecting : outcome (expecting s.installation.dataPath) s = (.ok path, s) := by
      rw [outcome_expecting, hpath]
      rfl
    change outcome (expecting s.installation.dataPath >>= fun path => _) s = _
    rw [outcome_bind_ok hexpecting]
    rfl
  rw [outcome_bind_ok hset]
  exact h _ rfl

theorem ends_setStore {path : String} {store : FormulaStore} {f : Unit → Action β} (hi : I i)
    (hpath : i.dataPath = .ok path)
    (h : Ends I F (i.putDirectory path { i.directory path with store }) (f ())) :
    Ends I F i (setStore store >>= f) := by
  unfold setStore
  rw [bind_assoc]
  refine (looks_data hpath).endsBind hi fun d hd => ?_
  rw [hd]
  exact ends_setData hpath h

/-! ### Lines -/

theorem ends_taking {name summary : String} {arguments : Arguments α} {o : Occasion}
    {act : Occasion → α → Action Unit} {words : List String} (hi : I i)
    (h : ∀ a, arguments.parse words = .accepted a → Ends I F i (act o a)) :
    Ends I F i ((taking name summary arguments act).run o words) := by
  unfold taking
  dsimp only
  cases hparse : arguments.parse words with
  | accepted a => exact h a hparse
  | help => exact (looks_throw (Q := fun _ => True) (by nofun)).ends hi
  | refused => exact (looks_throw (Q := fun _ => True) (by nofun)).ends hi

/-- Words behind options of the program name a group, and words behind options of the group name a
command. -/
def Names (line : List String) (group command : String) (words : List String) : Prop :=
  ∃ rest, (splitOptions line).2 = group :: rest ∧ (splitOptions rest).2 = command :: words

theorem ends_choose {options : List (String × Action Unit)} {line : List String}
    {act : String → List String → Action Unit} (hi : I i)
    (hoptions : ∀ o ∈ options, Looks i F o.2 fun _ => True)
    (hact : ∀ name words, (splitOptions line).2 = name :: words → Ends I F i (act name words)) :
    Ends I F i (choose options line act) := by
  have husage : Ends I F i (throw (.usage none) : Action Unit) :=
    (looks_throw (Q := fun _ => True) (by nofun)).ends hi
  unfold choose
  rcases hsplit : splitOptions line with ⟨leading, rest⟩
  dsimp only
  split
  · exact husage
  · split
    · next hfind => exact (hoptions _ (List.mem_of_find?_eq_some hfind)).ends hi
    · exact hact _ _ (by rw [hsplit])
    · exact husage

theorem ends_runCommand {g : Group} {c : Command} {o : Occasion} {words : List String}
    (h : Ends I F i (c.run o words)) : Ends I F i (g.runCommand c o words) := by
  intro s hs
  obtain ⟨hstate, hfault⟩ := h s hs
  unfold Group.runCommand
  rw [outcome_tryCatch]
  rcases hrun : outcome (c.run o words) s with ⟨e | a, s'⟩
  · rw [hrun] at hstate hfault
    cases e with
    | help => exact (looks_sayAll _).ends hstate s' rfl
    | fault f => exact ⟨hstate, fun f' hf => hfault f' hf⟩
    | _ => exact (looks_throw (Q := fun _ => True) (by nofun)).ends hstate s' rfl
  · rw [hrun] at hstate
    exact ⟨hstate, fun _ hf => nomatch hf⟩

/-- The program ends as the command that its line names, and without faults if there is none. -/
theorem ends_program {o : Occasion} {line : List String} (hi : I i)
    (h : ∀ g ∈ groups, ∀ c ∈ g.commands, ∀ words, Names line g.name c.name words →
      Ends I F i (c.run o words)) : Ends I F i (program o line) := by
  have husage : Ends I F i (throw (.usage none) : Action Unit) :=
    (looks_throw (Q := fun _ => True) (by nofun)).ends hi
  refine ends_choose hi ?_ fun name rest hrest => ?_
  · simp only [List.mem_cons, List.not_mem_nil, or_false, forall_eq_or_imp, forall_eq]
    exact ⟨looks_say _, looks_sayAll _⟩
  split
  · next g hg =>
    have hname : g.name = name := by simpa using List.find?_some hg
    refine ends_choose hi ?_ fun name' words hwords => ?_
    · simp only [List.mem_cons, List.not_mem_nil, or_false, forall_eq]
      exact looks_sayAll _
    split
    · next c hc =>
      have hname' : c.name = name' := by simpa using List.find?_some hc
      refine ends_runCommand (h g (List.mem_of_find?_eq_some hg) c (List.mem_of_find?_eq_some hc)
        words ⟨rest, ?_, ?_⟩)
      · rw [hrest, hname]
      · rw [hwords, hname']
    · exact husage
  · exact husage

theorem answer_ends {o : Occasion} {line : List String} (h : Ends I F i (program o line))
    (typed : String) :
    I (answer i o typed line).2 ∧ ∀ f, (answer i o typed line).1 = .broke f → F f := by
  obtain ⟨hstate, hfault⟩ := h { installation := i, typed := typedLines typed } rfl
  refine ⟨hstate, fun f hf => hfault f ?_⟩
  have hending : (answer i o typed line).1 =
      endingOf (outcome (program o line) { installation := i, typed := typedLines typed }).2.printed
        (outcome (program o line) { installation := i, typed := typedLines typed }).1 := rfl
  rw [hending] at hf
  revert hf
  rcases (outcome (program o line) { installation := i, typed := typedLines typed }).1 with e | a
  · cases e <;> intro hf <;> first | cases hf; rfl | cases hf
  · exact nofun

end Payroll.Command
