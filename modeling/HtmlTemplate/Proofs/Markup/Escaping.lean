import HtmlTemplate.Markup.Entity
import HtmlTemplate.Proofs.Text.Scanning

/-!
# Escaped text reads back

Decoding takes an escaped character at a time and gives that character back, whatever text follows
(`decode_escapeTextChar`, `decode_escapeAttributeChar`): every reference that is written is known,
and a written ampersand always begins one. So no ampersand of the text itself meets a semicolon that
was written behind it, and the whole reads back (`decode_of_escaped`). The escaped forms hold none
of the marks that would end a run of text or a quoted value.

## Why one character at a time

A reference ends at a semicolon, and text behind a written reference may hold one. Since what is
written for a character is either the character itself, which is then no ampersand, or a whole
reference, decoding never looks for a semicolon beyond it. The lemma for a text follows by induction
on its characters for any escaper with this property (`decode_flatMap`).
-/

namespace HtmlTemplate.Entity

/-! ## Reading one character -/

theorem decode_cons_of_ne {c : Char} (t : List Char) (h : c ≠ '&') :
    decode (c :: t) = c :: decode t := by
  rw [decode, if_neg h]

theorem decode_ampersand {t rest : List Char} {d : Char} (h : reference? t = some (d, rest)) :
    decode ('&' :: t) = d :: decode rest := by
  rw [decode, if_pos rfl, h]

theorem decode_reference {name : String} {d : Char} (t : List Char)
    (hname : (name.toList.all fun c ↦ !(c == ';')) = true)
    (hd : charOf? name.toList = some d) : decode (reference name ++ t) = d :: decode t := by
  have hstop : ∀ c ∈ name.toList, (c == ';') = false := fun c hc ↦ by
    simpa using List.all_eq_true.mp hname c hc
  rw [reference, List.cons_append, List.append_assoc, List.singleton_append]
  refine decode_ampersand ?_
  rw [reference?, Text.cutAtChar_append_stop t hstop (by decide)]
  simp [hd]

theorem decode_escapeTextChar (c : Char) (t : List Char) :
    decode (escapeTextChar c ++ t) = c :: decode t := by
  rw [escapeTextChar]
  split_ifs with h1 h2 h3 h4
  · exact h1 ▸ decode_reference t (by decide) (by decide)
  · exact h2 ▸ decode_reference t (by decide) (by decide)
  · exact h3 ▸ decode_reference t (by decide) (by decide)
  · exact h4 ▸ decode_reference t (by decide) (by decide)
  · exact decode_cons_of_ne t h1

theorem decode_escapeAttributeChar (c : Char) (t : List Char) :
    decode (escapeAttributeChar c ++ t) = c :: decode t := by
  rw [escapeAttributeChar]
  split_ifs with h1 h2 h3
  · exact h1 ▸ decode_reference t (by decide) (by decide)
  · exact h2 ▸ decode_reference t (by decide) (by decide)
  · exact h3 ▸ decode_reference t (by decide) (by decide)
  · exact decode_cons_of_ne t h1

/-! ## Reading a text -/

theorem decode_nil : decode [] = [] := by rw [decode]

theorem decode_append {s : List Char} (t : List Char) (h : '&' ∉ s) :
    decode (s ++ t) = s ++ decode t := by
  induction s with
  | nil => rfl
  | cons c s ih =>
    rw [List.mem_cons, not_or] at h
    rw [List.cons_append, decode_cons_of_ne _ (fun hc ↦ h.1 hc.symm), ih h.2, List.cons_append]

theorem decode_of_not_mem {s : List Char} (h : '&' ∉ s) : decode s = s := by
  have hend := decode_append [] h
  rwa [decode_nil, List.append_nil] at hend

/-- What is written character by character, each so that it reads back in front of any text, reads
back in front of any text itself. -/
theorem decode_flatMap_append {escape : Char → List Char}
    (h : ∀ c t, decode (escape c ++ t) = c :: decode t) (s t : List Char) :
    decode (s.flatMap escape ++ t) = s ++ decode t := by
  induction s with
  | nil => rfl
  | cons c s ih => rw [List.flatMap_cons, List.append_assoc, h, ih, List.cons_append]

theorem decode_flatMap {escape : Char → List Char}
    (h : ∀ c t, decode (escape c ++ t) = c :: decode t) (s : List Char) :
    decode (s.flatMap escape) = s := by
  have hend := decode_flatMap_append h s []
  rwa [decode_nil, List.append_nil, List.append_nil] at hend

@[simp] theorem decode_escapeText (s : List Char) : decode (escapeText s) = s :=
  decode_flatMap decode_escapeTextChar s

@[simp] theorem decode_escapeAttribute (s : List Char) : decode (escapeAttribute s) = s :=
  decode_flatMap decode_escapeAttributeChar s

theorem decode_ne_nil {s : List Char} (h : s ≠ []) : decode s ≠ [] := by
  cases s with
  | nil => exact absurd rfl h
  | cons c t =>
    rw [decode]
    split <;> exact List.cons_ne_nil _ _

/-! ## What the written forms avoid

A run of text ends at an angle bracket, and a value in double quotes at the next one. -/

private theorem not_mem_escapeTextChar {x : Char} (hx : x = '<' ∨ x = '>') (c : Char) :
    x ∉ escapeTextChar c := by
  rw [escapeTextChar]
  split_ifs with h1 h2 h3 h4
  · rcases hx with rfl | rfl <;> decide
  · rcases hx with rfl | rfl <;> decide
  · rcases hx with rfl | rfl <;> decide
  · rcases hx with rfl | rfl <;> decide
  · rw [List.mem_singleton]
    rintro rfl
    exact hx.elim h2 h3

theorem not_mem_escapeText_of {x : Char} (hx : x = '<' ∨ x = '>') (s : List Char) :
    x ∉ escapeText s := by
  rw [escapeText, List.mem_flatMap]
  rintro ⟨c, -, hc⟩
  exact not_mem_escapeTextChar hx c hc

theorem not_mem_escapeText (s : List Char) : '<' ∉ escapeText s :=
  not_mem_escapeText_of (Or.inl rfl) s

theorem not_mem_escapeAttribute (s : List Char) : '"' ∉ escapeAttribute s := by
  rw [escapeAttribute, List.mem_flatMap]
  rintro ⟨c, -, hc⟩
  rw [escapeAttributeChar] at hc
  split_ifs at hc with h1 h2 h3
  · exact absurd hc (by decide)
  · exact absurd hc (by decide)
  · exact absurd hc (by decide)
  · exact h2 (List.mem_singleton.mp hc).symm

theorem escapeText_ne_nil {s : List Char} (h : s ≠ []) : escapeText s ≠ [] := by
  intro he
  have := decode_escapeText s
  rw [he, decode] at this
  exact h this.symm

/-! ## Both escapers -/

private theorem escapeText_append (s t : List Char) :
    escapeText (s ++ t) = escapeText s ++ escapeText t := List.flatMap_append

private theorem escapeAttribute_append (s t : List Char) :
    escapeAttribute (s ++ t) = escapeAttribute s ++ escapeAttribute t := List.flatMap_append

/-- **Decoding undoes escaping.** Each of the written forms stands for the text that was written.
The form for text has no angle bracket in it and the form for attributes no double quote, and what
is written piece by piece is what is written at once. -/
theorem decode_of_escaped (s t : List Char) :
    (decode (escapeText s) = s ∧ decode (escapeAttribute s) = s) ∧
    ('<' ∉ escapeText s ∧ '>' ∉ escapeText s ∧ '"' ∉ escapeAttribute s) ∧
    escapeText (s ++ t) = escapeText s ++ escapeText t ∧
    escapeAttribute (s ++ t) = escapeAttribute s ++ escapeAttribute t := by
  refine ⟨⟨decode_escapeText s, decode_escapeAttribute s⟩, ⟨?_, ?_, ?_⟩, ?_, ?_⟩
  · exact not_mem_escapeText s
  · exact not_mem_escapeText_of (Or.inr rfl) s
  · exact not_mem_escapeAttribute s
  · exact escapeText_append s t
  · exact escapeAttribute_append s t

end HtmlTemplate.Entity
