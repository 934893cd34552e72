import HtmlTemplate.Outcome
import HtmlTemplate.Program.Arguments
import HtmlTemplate.Proofs.Text.Scanning
import Mathlib.Tactic.Common

/-!
# What arguments give to options

The options with a value can be read off accepted arguments without a state: from the left, every
argument up to two dashes that names such an option gives it the value that is attached, or else the
next argument (`givenValues`). Reading arguments collects exactly these values (`values_of_parse`),
so an option is given if and only if an argument names it, also where the value is empty
(`givenTo_eq_nil_iff`).

## Values in front

An argument can be a name, a name with an attached value, or letters joined behind one dash of which
the last may have a value. In each case it names one option with a value at most (`settingOf?`), and
takes the next argument only if the value is not attached. So the values can be read from the left
with no memory of what was read, which is what `givenValues` does.
-/

namespace HtmlTemplate

def Given.values (g : Given) : Setting → List String
  | .data => g.data.toList
  | .config => g.config.toList
  | .bind => g.bind.toList
  | .priority => g.priority
  | .output => g.output.toList

namespace Arguments

variable {g g' : Given} {s t : Setting} {argument value name : String} {cs : List Char}
  {arguments rest rest' : List String} {template template' : Option String}
    {pending : Option Setting}

/-! ## Values of arguments -/

/-- The texts of a value: names between commas for the priority, and itself for any other option. -/
def textsOf (value : String) : Setting → List String
  | .priority => (value.toList.splitOn ',').map String.ofList
  | _ => [value]

def settingOfLetters? : List Char → Option (Setting × Option String)
  | [] => none
  | c :: cs =>
    match OptionKey.ofLetter? c with
    | some (.setting s) => some (s, attached cs)
    | some (.switch _) => settingOfLetters? cs
    | none => none

def settingOfName? (name : String) (value : Option String) : Option (Setting × Option String) :=
  match OptionKey.ofName? name with
  | some (.setting s) => some (s, value)
  | _ => none

/-- The option with a value that an argument names, and the value if it is attached. -/
def settingOf? (argument : String) : Option (Setting × Option String) :=
  match formOf argument with
  | .named name value => settingOfName? name value
  | .letters cs => settingOfLetters? cs
  | _ => none

/-- The values that arguments give to options. -/
def givenValues : List String → List (Setting × String)
  | [] => []
  | argument :: rest =>
    if formOf argument = .dashes then []
    else
      match settingOf? argument with
      | none => givenValues rest
      | some (s, some value) => (s, value) :: givenValues rest
      | some (s, none) =>
        match rest with
        | [] => []
        | value :: rest => (s, value) :: givenValues rest

def textsFor (s : Setting) (given : Setting × String) : List String :=
  if given.1 = s then textsOf given.2 s else []

def givenTo (s : Setting) (arguments : List String) : List String :=
  (givenValues arguments).flatMap (textsFor s)

private theorem textsOf_ne_nil (value : String) (s : Setting) : textsOf value s ≠ [] := by
  cases s with
  | priority =>
    intro h
    exact List.splitOn_ne_nil _ _ (List.map_eq_nil_iff.mp h)
  | _ => exact List.cons_ne_nil _ _

/-- **An option has a text exactly if an argument names it**, whatever the value is. -/
theorem givenTo_eq_nil_iff :
    givenTo s arguments = [] ↔ ∀ value, (s, value) ∉ givenValues arguments := by
  rw [givenTo, List.flatMap_eq_nil_iff]
  constructor
  · intro h value hmem
    have hnil := h _ hmem
    rw [textsFor, if_pos rfl] at hnil
    exact textsOf_ne_nil value s hnil
  · rintro h ⟨t, value⟩ hmem
    refine if_neg ?_
    rintro rfl
    exact h value hmem

/-! ## Steps of reading -/

private theorem once_eq_ok_iff {o o' : Option String} :
    once argument value o = .ok o' ↔ o = none ∧ o' = some value := by
  cases o <;> simp [once, eq_comm]

theorem values_setting (h : setting g argument value t = .ok g') (s : Setting) :
    g'.values s = g.values s ++ textsFor s (t, value) := by
  cases t with
  | priority =>
    obtain rfl := Except.ok.inj h
    cases s <;> simp [Given.values, textsFor, textsOf, Text.pieces_singleton]
  | _ =>
    obtain ⟨o, ho, rfl⟩ := map_eq_ok_iff.mp h
    obtain ⟨hnone, rfl⟩ := once_eq_ok_iff.mp ho
    cases s <;> simp [Given.values, textsFor, textsOf, hnone]

theorem values_switch {t : Switch} (h : switch g argument t = .ok g') (s : Setting) :
    g'.values s = g.values s := by
  cases t with
  | help | version => exact nomatch h
  | pretty | verbose =>
    rw [switch] at h
    split_ifs at h
    obtain rfl := Except.ok.inj h
    cases s <;> rfl

/-- What reading an argument does, given the option with a value that it names: the value is put
behind those that are there, or the option is left without its value. -/
inductive Reads (g : Given) : Option (Setting × Option String) → Given → Option Setting → Prop
  | none {g' : Given} (h : ∀ s, g'.values s = g.values s) : Reads g none g' none
  | value {g' : Given} {t : Setting} {value : String}
    (h : ∀ s, g'.values s = g.values s ++ textsFor s (t, value)) :
    Reads g (some (t, some value)) g' none
  | pending {g' : Given} {t : Setting} (h : ∀ s, g'.values s = g.values s) :
    Reads g (some (t, none)) g' (some t)

theorem Reads.of_settle {value : Option String}
    (h : settle g argument t value = .ok (g', pending)) :
    Reads g (some (t, value)) g' pending := by
  cases value with
  | none =>
    cases h
    exact .pending fun _ ↦ rfl
  | some value =>
    obtain ⟨_, hset, he⟩ := map_eq_ok_iff.mp h
    cases he
    exact .value (values_setting hset)

theorem Reads.of_eq {g₁ : Given} {o : Option (Setting × Option String)}
    (h : Reads g₁ o g' pending) (heq : ∀ s, g₁.values s = g.values s) : Reads g o g' pending := by
  cases h with
  | none h => exact .none fun s ↦ (h s).trans (heq s)
  | value h => exact .value fun s ↦ heq s ▸ h s
  | pending h => exact .pending fun s ↦ (h s).trans (heq s)

theorem Reads.of_readLetters (h : readLetters g argument cs = .ok (g', pending)) :
    Reads g (settingOfLetters? cs) g' pending := by
  induction cs generalizing g with
  | nil =>
    cases h
    exact .none fun _ ↦ rfl
  | cons c cs ih =>
    rw [readLetters] at h
    rw [settingOfLetters?]
    split at h
    · exact nomatch h
    · rename_i t ht
      rw [ht]
      exact .of_settle h
    · rename_i t ht
      obtain ⟨g₁, hswitch, h⟩ := bind_eq_ok_iff.mp h
      rw [ht]
      exact (ih h).of_eq (values_switch hswitch)

theorem Reads.of_readNamed {value : Option String}
    (h : readNamed g argument name value = .ok (g', pending)) :
    Reads g (settingOfName? name value) g' pending := by
  rw [readNamed] at h
  rw [settingOfName?]
  split at h
  · exact nomatch h
  · rename_i t ht
    rw [ht]
    exact .of_settle h
  · rename_i t ht
    split_ifs at h
    obtain ⟨_, hswitch, he⟩ := map_eq_ok_iff.mp h
    cases he
    rw [ht]
    exact .none (values_switch hswitch)

/-- What reading an argument leaves of those behind it: all, or all but the one that is a value. -/
inductive Passes (g : Given) (argument : String) : List String → Given → List String → Prop
  | alone {g' : Given} {rest : List String} (h : Reads g (settingOf? argument) g' none) :
    Passes g argument rest g' rest
  | next {g₁ g' : Given} {t : Setting} {value : String} {rest : List String}
    (h : Reads g (settingOf? argument) g₁ (some t))
    (hset : setting g₁ argument value t = .ok g') : Passes g argument (value :: rest) g' rest

theorem Passes.length_le (h : Passes g argument rest g' rest') : rest'.length ≤ rest.length := by
  cases h with
  | alone => exact le_rfl
  | next => exact Nat.le_succ _

theorem Passes.values_append (h : Passes g argument rest g' rest')
    (hform : formOf argument ≠ .dashes) (s : Setting) :
    g'.values s ++ givenTo s rest' = g.values s ++ givenTo s (argument :: rest) := by
  rw [givenTo, givenTo, givenValues, if_neg hform]
  cases h with
  | alone h =>
    generalize settingOf? argument = o at h
    cases h with
    | none h => rw [h]
    | value h => rw [h, List.flatMap_cons, List.append_assoc]
  | next h hset =>
    rw [values_setting hset]
    generalize settingOf? argument = o at h
    cases h with
    | pending h => rw [h, List.flatMap_cons, List.append_assoc]

theorem Reads.exists_passes {g₁ : Given} (hreads : Reads g (settingOf? argument) g₁ pending)
    (h : (match pending with
      | .none => read template g₁ rest
      | .some s =>
        match rest with
        | [] => .error (.usage (.noValue argument))
        | value :: rest =>
          if formOf value = Form.word then do
            let g₁ ← setting g₁ argument value s
            read template g₁ rest
          else .error (.usage (.noValue argument))) = .ok (template', g')) :
    ∃ template₁ g₂ rest', Passes g argument rest g₂ rest' ∧
      read template₁ g₂ rest' = .ok (template', g') := by
  cases pending with
  | none => exact ⟨template, g₁, rest, .alone hreads, h⟩
  | some t =>
    cases rest with
    | nil => exact nomatch h
    | cons value rest =>
      dsimp only at h
      split_ifs at h
      obtain ⟨g₂, hset, h⟩ := bind_eq_ok_iff.mp h
      exact ⟨template, g₂, rest, .next hreads hset, h⟩

theorem read_cons_cases (h : read template g (argument :: rest) = .ok (template', g')) :
    (formOf argument = .dashes ∧ g' = g) ∨ (formOf argument ≠ .dashes ∧
      ∃ template₁ g₁ rest', Passes g argument rest g₁ rest' ∧
        read template₁ g₁ rest' = .ok (template', g')) := by
  rw [read] at h
  cases hform : formOf argument with
  | dashes =>
    rw [hform] at h
    obtain ⟨_, -, h⟩ := bind_eq_ok_iff.mp h
    cases h
    exact .inl ⟨rfl, rfl⟩
  | named name value =>
    rw [hform] at h
    obtain ⟨⟨g₁, pending⟩, hread, h⟩ := bind_eq_ok_iff.mp h
    have hreads : Reads g (settingOf? argument) g₁ pending := by
      rw [settingOf?, hform]
      exact .of_readNamed hread
    exact .inr ⟨Form.noConfusion, hreads.exists_passes h⟩
  | letters cs =>
    rw [hform] at h
    obtain ⟨⟨g₁, pending⟩, hread, h⟩ := bind_eq_ok_iff.mp h
    have hreads : Reads g (settingOf? argument) g₁ pending := by
      rw [settingOf?, hform]
      exact .of_readLetters hread
    exact .inr ⟨Form.noConfusion, hreads.exists_passes h⟩
  | word =>
    rw [hform] at h
    obtain ⟨template₁, -, h⟩ := bind_eq_ok_iff.mp h
    have hreads : Reads g (settingOf? argument) g none := by
      rw [settingOf?, hform]
      exact .none fun _ ↦ rfl
    exact .inr ⟨Form.noConfusion, template₁, g, rest, .alone hreads, h⟩

/-- **Reading collects the values that the arguments give.** -/
theorem values_of_read (h : read template g arguments = .ok (template', g')) (s : Setting) :
    g'.values s = g.values s ++ givenTo s arguments := by
  induction hn : arguments.length using Nat.strong_induction_on
    generalizing template g arguments with
  | _ n ih =>
    cases arguments with
    | nil =>
      cases h
      exact (List.append_nil _).symm
    | cons argument rest =>
      obtain ⟨hform, rfl⟩ | ⟨hform, template₁, g₁, rest', hpasses, h⟩ := read_cons_cases h
      · rw [givenTo, givenValues, if_pos hform]
        exact (List.append_nil _).symm
      · have hlt : rest'.length < n := hn ▸ Nat.lt_succ_of_le hpasses.length_le
        rw [ih rest'.length hlt h rfl, hpasses.values_append hform]

theorem values_of_parse {a : Arguments} (h : parse arguments = .ok a) (s : Setting) :
    a.values s = givenTo s arguments := by
  obtain ⟨⟨template, g⟩, hread, h⟩ := bind_eq_ok_iff.mp h
  have hvalues := values_of_read hread s
  have hempty : ({} : Given).values s = [] := by cases s <;> rfl
  rw [hempty, List.nil_append] at hvalues
  cases template with
  | none => exact nomatch h
  | some template =>
    cases h
    exact hvalues

end Arguments

end HtmlTemplate
