import HtmlTemplate.Proofs.Number.ReadBack
import HtmlTemplate.Proofs.Text.Occurrences
import HtmlTemplate.Proofs.Value.Indices
import HtmlTemplate.Proofs.Value.Slicing

/-!
# Positions in a text

A text is indexed, cut and searched by characters, whichever operation is used (`positions_agree`).
The numbers that stand for natural numbers are its positions.

## Large numbers

From `2 ^ 53` on not every natural number is a double, and what is written for one need not be all
of its digits, so the key that it gives can be that of another number. But then that number is above
`2 ^ 53`, too: the text of a number is read back as the number, and up to `2 ^ 53` digits are those
of one number only (`eq_or_lt_of_arrayIndex?`).

## One count for all operations

A text is a list of characters, and every operation counts in it: an index and a slice from its
beginning, a search by what stands in front of what is found. The operations differ in how they take
their arguments. An index is a key and so a text; positions in calls are numbers, cut toward zero
and kept inside the text.
-/

namespace HtmlTemplate

open Number (StandsFor Whole ofNat whole)
open Text (IsFirstCut positionOf)

variable {x y : Float} {i j n : Nat} {s t : String}

/-! ## Numbers that stand for natural numbers -/

namespace Number

theorem StandsFor.unique {z z' : Int} (h : StandsFor x z) (h' : StandsFor x z') : z = z' := by
  have hwhole := h.whole_eq.symm.trans h'.whole_eq
  cases hwhole
  rfl

theorem StandsFor.lt_of_odd (h : StandsFor x n) (hodd : n % 2 = 1) : n < 2 ^ 53 := by
  obtain ⟨negative, m, e, hx, hv⟩ := h
  have hm : m < 2 ^ 53 := by
    obtain ⟨-, rfl, -⟩ | ⟨hc, -⟩ := unpack_of_exact hx
    · decide
    · exact hc.lt
  have hvalue : (m : Rat) * 2 ^ e = n := by
    cases negative
    · exact_mod_cast hv
    · -- below zero there is no natural number
      have hnonneg : (0 : Rat) ≤ m * 2 ^ e := by positivity
      have hn : (n : Rat) ≤ 0 := by
        rw [if_pos rfl, Int.cast_natCast] at hv
        linarith
      have : n = 0 := by exact_mod_cast le_antisymm hn n.cast_nonneg
      omega
  rcases e with k | k
  · rw [Int.ofNat_eq_natCast, zpow_natCast] at hvalue
    have hmul : m * 2 ^ k = n := by exact_mod_cast hvalue
    rcases k with _ | k
    · omega
    · rw [Nat.pow_succ, ← Nat.mul_assoc] at hmul
      omega
  · have hmul := eq_mul_twoPow hvalue
    exact (Nat.le_mul_of_pos_right n (Nat.two_pow_pos (k + 1))).trans_lt (hmul ▸ hm)

theorem StandsFor.succ_le (hx : StandsFor x i) (hy : StandsFor y (i + 1)) : i + 1 ≤ 2 ^ 53 := by
  have hy : StandsFor y (i + 1 : Nat) := by exact_mod_cast hy
  rcases Nat.mod_two_eq_zero_or_one i with heven | hodd
  · exact (hy.lt_of_odd (by omega)).le
  · exact hx.lt_of_odd hodd

theorem StandsFor.text_eq (h : StandsFor x n) (hn : n ≤ 2 ^ 53) : text x = toString n := by
  obtain ⟨negative, hx, hsign⟩ := h.exists_eq_withSign (by simpa using hn)
  rw [Int.natAbs_natCast] at hx hsign
  rw [hx, text_withSign negative hn, hsign, decide_eq_false (by omega), toString_eq]
  rfl

theorem StandsFor.readBack (h : StandsFor x n) : StandsFor (ofText (text x)) n := by
  obtain ⟨negative, m, e, hx, hv⟩ := h
  rw [ofText_text_of_finite hx, beq_zero_of_exact hx]
  by_cases hm : m = 0
  · have hn : (n : Rat) = 0 := by
      rw [← Int.cast_natCast, ← hv, hm]
      simp
    rw [if_pos (decide_eq_true hm), show n = 0 by exact_mod_cast hn]
    exact standsFor_ofNat (Nat.zero_le _)
  · rw [if_neg (by simpa using hm)]
    exact ⟨negative, m, e, hx, hv⟩

theorem StandsFor.head_text (h : StandsFor x n) :
    (text x).toList.head?.any Char.isLower = false := by
  obtain ⟨negative, m, e, hx, -⟩ := h
  rw [text, String.toList_ofList, chars, hx]
  dsimp only
  split_ifs
  · rfl
  · obtain ⟨c, r, hcons, hc⟩ := (shortest m e).denotes_text.exists_eq_cons
    have hlower : c.isLower = false := by
      have hc := Text.isDigit_iff.mp hc
      rw [← Bool.not_eq_true, Text.isLower_iff]
      omega
    cases negative
    · rw [signText, if_neg Bool.false_ne_true, List.nil_append, hcons]
      exact hlower
    · rfl

end Number

/-! ## Keys of numbers -/

/-- The item of a value that a number gives. -/
def Value.itemAt (v : Value) (x : Float) : Except EvalError Value :=
  v.getProperty (Value.number x).toText

theorem arrayIndex?_text (hx : StandsFor x i) (hi : i ≤ 2 ^ 53) :
    arrayIndex? (Value.number x).toText = some i := by
  rw [Value.toText, hx.text_eq hi]
  exact arrayIndex?_eq_some_iff.mpr ⟨hi.trans_lt (by decide), rfl⟩

/-- **The key of a number is its own index**, or else that of a number above `2 ^ 53`. -/
theorem eq_or_lt_of_arrayIndex? (hx : StandsFor x i)
    (h : arrayIndex? (Value.number x).toText = some n) : n = i ∨ 2 ^ 53 < n := by
  refine or_iff_not_imp_right.mpr fun hn ↦ ?_
  have hn := Nat.le_of_not_lt hn
  have hnat : StandsFor (ofNat n) n := Number.standsFor_ofNat hn
  have htext : Number.text x = Number.text (ofNat n) := by
    rw [hnat.text_eq hn]
    exact (arrayIndex?_eq_some_iff.mp h).2
  exact_mod_cast hnat.readBack.unique (htext ▸ hx.readBack)

namespace Value

theorem itemAt_string (hx : StandsFor x i) (hi : i ≤ 2 ^ 53) {c : Char}
    (hc : s.toList[i]? = some c) : (string s).itemAt x = .ok (string (.singleton c)) := by
  have hindex := arrayIndex?_text hx hi
  rw [itemAt, getProperty, if_neg (ne_length_of_arrayIndex? hindex), hindex]
  dsimp only
  rw [hc]

theorem itemAt_array (hx : StandsFor x i) (hi : i ≤ 2 ^ 53) (items : List Value) :
    (array items).itemAt x = .ok (items[i]?.getD undefined) := by
  have hindex := arrayIndex?_text hx hi
  rw [itemAt, getProperty, if_neg (ne_length_of_arrayIndex? hindex), hindex]

theorem itemAt_of_length_le (hx : StandsFor x i) (hi : s.length ≤ i) (hs : s.length ≤ 2 ^ 53) :
    (string s).itemAt x = .ok undefined := by
  rcases hindex : arrayIndex? (number x).toText with _ | n
  · have hne : (number x).toText ≠ "length" := by
      intro h
      have hhead := hx.head_text
      rw [toText] at h
      rw [h] at hhead
      cases hhead
    rw [itemAt, getProperty, if_neg hne, hindex]
    exact congrArg Except.ok (boundMethod_of_head _ hx.head_text)
  · have hn : s.toList[n]? = none := by
      rw [List.getElem?_eq_none_iff, String.length_toList]
      rcases eq_or_lt_of_arrayIndex? hx hindex with rfl | hlt <;> omega
    rw [itemAt, getProperty, if_neg (ne_length_of_arrayIndex? hindex), hindex]
    dsimp only
    rw [hn]

/-! ## Characters and slices -/

theorem callMethod_charAt (hx : StandsFor x i) (s : String) :
    (string s).callMethod .charAt [number x] =
      .ok (string (String.ofList s.toList[i]?.toList)) := by
  have hclamp : Number.clampTrunc (-1) s.toList.length x = (min i s.toList.length : Nat) := by
    rw [Number.clampTrunc_eq, hx.whole_eq, Whole.clamp]
    omega
  rw [callMethod_string rfl Method.noConfusion]
  show Except.ok (string (String.ofList (if Number.clampTrunc (-1) s.toList.length x < 0 then []
    else s.toList[(Number.clampTrunc (-1) s.toList.length x).toNat]?.toList))) = _
  rw [hclamp, if_neg (by omega), Int.toNat_natCast]
  rcases Nat.lt_or_ge i s.toList.length with hlt | hge
  · rw [Nat.min_eq_left hlt.le]
  · rw [Nat.min_eq_right hge, List.getElem?_eq_none hge, List.getElem?_eq_none le_rfl]

private theorem sliceBetween_numbers {α : Type} (hx : StandsFor x i) (hy : StandsFor y j)
    (xs : List α) :
    sliceBetween xs (number x) (number y) = (xs.drop i).take (j - i) := by
  have hplace (default : Nat) {z : Float} {k : Nat} (hz : StandsFor z k) :
      placeOf xs.length default (number z) = min k xs.length := by
    rw [placeOf_of_ne_undefined (by exact Value.noConfusion), toNumber, hz.whole_eq,
      Whole.position_natCast]
  rw [sliceBetween_eq, hplace 0 hx, hplace _ hy]
  rcases le_total i xs.length with hle | hge
  · rw [Nat.min_eq_left hle, List.take_eq_take_iff, List.length_drop]
    omega
  · rw [Nat.min_eq_right hge, List.drop_length, List.drop_eq_nil_of_le hge, List.take_nil,
      List.take_nil]

theorem callMethod_slice_numbers (hx : StandsFor x i) (hy : StandsFor y j) (s : String) :
    (string s).callMethod .slice [number x, number y] =
      .ok (string (String.ofList ((s.toList.drop i).take (j - i)))) := by
  rw [callMethod_slice_string, ← sliceBetween_numbers hx hy]
  rfl

theorem callMethod_slice_of_length_le (hx : StandsFor x i) (hi : s.length ≤ i) (v : Value) :
    (string s).callMethod .slice [number x, v] = .ok (string "") := by
  have hplace : placeOf s.toList.length 0 (number x) = s.toList.length := by
    rw [placeOf_of_ne_undefined (by exact Value.noConfusion), toNumber, hx.whole_eq,
      Whole.position_natCast, String.length_toList, Nat.min_eq_right hi]
  rw [callMethod_slice_string, sliceBetween_eq]
  show Except.ok (string (String.ofList ((s.toList.drop (placeOf _ 0 (number x))).take _))) = _
  rw [hplace, List.drop_length, List.take_nil]

def characters (s : String) : List Value := s.toList.map fun c ↦ string (.singleton c)

theorem callMethod_split_empty (s : String) :
    (string s).callMethod .split [string ""] = .ok (array (characters s)) := by
  rw [callMethod_string rfl Method.noConfusion]
  show Except.ok (array ((splitText s.toList []).map fun part ↦ string (String.ofList part))) = _
  rw [splitText, dif_neg (by simp), List.map_map]
  rfl

/-! ## Searching

A position is the first one if nothing is found in front of it. That a text is found at no position
is the same as that it does not occur. -/

/-- Is the number the first position from `start` on that has a property, or `-1` if none has it? -/
def IsFirstPosition (p : Nat → Prop) (start : Nat) (x : Float) : Prop :=
  (∃ k, x = ofNat k ∧ start ≤ k ∧ p k ∧ ∀ j, start ≤ j → p j → k ≤ j) ∨
    x = -1 ∧ ∀ j, start ≤ j → ¬p j

theorem ofNat_ne_neg_one (n : Nat) : ofNat n ≠ -1 := by
  intro h
  have hminus : Number.exact (-1) = .finite true 4503599627370496 (-52) := rfl
  obtain ⟨w, m, e, hx, -⟩ | hx := (Number.isNearest_ofNat n).hasValue_or_eq_infinity
  · rw [h, hminus] at hx
    cases hx
  · exact absurd (hminus.symm.trans (congrArg Number.exact (h.symm.trans hx))) (by decide +kernel)

theorem isFirstPosition_indexOfText (s needle : List Char) (v : Value) :
    IsFirstPosition (fun k ↦ needle <+: s.drop k) ((whole v.toNumber).clamp 0 s.length).toNat
      (indexOfText s needle v) := by
  rw [indexOfText, Number.clampTrunc_eq]
  generalize ((whole v.toNumber).clamp 0 s.length).toNat = a
  -- an occurrence from the start on stands behind a beginning of what is searched
  have hsplit {j : Nat} (hj : a ≤ j) (hp : needle <+: s.drop j) :
      ∃ b, (s.drop a).take (j - a) ++ (needle ++ b) = s.drop a := by
    obtain ⟨b, hb⟩ := hp
    refine ⟨b, ?_⟩
    have hdrop : s.drop j = (s.drop a).drop (j - a) := by
      rw [List.drop_drop, Nat.add_sub_cancel' hj]
    rw [hb, hdrop, List.take_append_drop]
  rcases hcut : Text.cutAt needle (s.drop a) with _ | ⟨before, behind⟩
  · rw [positionOf, hcut]
    refine .inr ⟨rfl, fun j hj hp ↦ ?_⟩
    obtain ⟨b, hb⟩ := hsplit hj hp
    exact Text.cutAt_eq_none_iff.mp hcut ⟨_, b, by rw [List.append_assoc, hb]⟩
  · rw [positionOf, hcut]
    have hfirst := Text.cutAt_eq_some_iff.mp hcut
    refine .inl ⟨a + before.length, rfl, Nat.le_add_right _ _, ⟨behind, ?_⟩, fun j hj hp ↦ ?_⟩
    · rw [← List.drop_drop, ← hfirst.append, List.drop_left]
    · obtain ⟨b, hb⟩ := hsplit hj hp
      have hle := hfirst.first hb
      rw [List.length_take] at hle
      omega

private theorem callMethod_indexOf (s t : String) (arguments : List Value) :
    (string s).callMethod .indexOf (string t :: arguments) =
      .ok (number (indexOfText s.toList t.toList (argument (string t :: arguments) 1))) :=
  callMethod_string rfl Method.noConfusion _

private theorem callMethod_includes (s t : String) :
    (string s).callMethod .includes [string t] = .ok (bool (Text.occursIn t.toList s.toList)) :=
  callMethod_string rfl Method.noConfusion _

theorem occursIn_iff_indexOfText_ne (s needle : List Char) :
    Text.occursIn needle s = true ↔ indexOfText s needle undefined ≠ -1 := by
  have hzero : (Number.clampTrunc 0 s.length undefined.toNumber).toNat = 0 := by
    rw [Number.clampTrunc_eq, toNumber, Number.whole_nan, Whole.clamp]
    omega
  rw [indexOfText, hzero, List.drop_zero, Text.occursIn, positionOf]
  rcases Text.cutAt needle s with _ | ⟨before, behind⟩
  · exact iff_of_false Bool.false_ne_true fun h ↦ h rfl
  · exact iff_of_true rfl (ofNat_ne_neg_one _)

/-- **All operations on positions in a text agree.** A text of more than `2 ^ 53` characters has
positions that no double stands for exactly. -/
theorem positions_agree (s : String) : ∃ parts,
    (string s).callMethod .split [string ""] = .ok (array parts) ∧
    ((string s).getProperty "length" = .ok (number (ofNat s.length)) ∧
      (array parts).getProperty "length" = .ok (number (ofNat s.length))) ∧
    (∀ (i : Nat) (x y : Float), StandsFor x i → StandsFor y (i + 1) → i < s.length → ∃ c,
      (string s).itemAt x = .ok (string (.singleton c)) ∧
        (string s).callMethod .charAt [number x] = .ok (string (.singleton c)) ∧
        (string s).callMethod .slice [number x, number y] = .ok (string (.singleton c)) ∧
        (array parts).itemAt x = .ok (string (.singleton c))) ∧
    (∀ (i : Nat) (x : Float) (v : Value), StandsFor x i → s.length ≤ i →
      (s.length ≤ 2 ^ 53 → (string s).itemAt x = .ok undefined) ∧
        (string s).callMethod .charAt [number x] = .ok (string "") ∧
        (string s).callMethod .slice [number x, v] = .ok (string "")) ∧
    (∀ (t : String) (f : Float), ∃ k,
      (string s).callMethod .indexOf [string t, number f] = .ok (number k) ∧
        IsFirstPosition (fun k ↦ t.toList <+: s.toList.drop k)
          ((whole f).clamp 0 s.length).toNat k) ∧
    (∀ (t : String) (i : Nat) (x y : Float), StandsFor x i → StandsFor y (i + t.length) →
      ((string s).callMethod .slice [number x, number y] = .ok (string t) ↔
        t.toList <+: s.toList.drop i)) ∧
    ∀ t : String, ∃ found k, (string s).callMethod .includes [string t] = .ok (bool found) ∧
      (string s).callMethod .indexOf [string t] = .ok (number k) ∧ (found = true ↔ k ≠ -1) := by
  refine ⟨characters s, callMethod_split_empty s, ⟨rfl, ?_⟩, fun i x y hx hy hi ↦ ?_,
    fun i x v hx hi ↦ ⟨itemAt_of_length_le hx hi, ?_, callMethod_slice_of_length_le hx hi v⟩,
    fun t f ↦ ⟨_, callMethod_indexOf s t [number f], ?_⟩, fun t i x y hx hy ↦ ?_,
    fun t ↦ ⟨_, _, callMethod_includes s t, callMethod_indexOf s t [],
      occursIn_iff_indexOfText_ne _ _⟩⟩
  · show Except.ok (number (ofNat (characters s).length)) = _
    rw [characters, List.length_map, String.length_toList]
  · have hle := hx.succ_le hy
    have hlt : i < s.toList.length := by rwa [String.length_toList]
    have hc := List.getElem?_eq_getElem hlt
    have hy : StandsFor y (i + 1 : Nat) := by exact_mod_cast hy
    refine ⟨s.toList[i], itemAt_string hx (by omega) hc, ?_, ?_, ?_⟩
    · rw [callMethod_charAt hx, hc]
      rfl
    · rw [callMethod_slice_numbers hx hy, Nat.add_sub_cancel_left, List.drop_eq_getElem_cons hlt]
      rfl
    · rw [itemAt_array hx (by omega), characters, List.getElem?_map, hc]
      rfl
  · rw [callMethod_charAt hx, List.getElem?_eq_none (by rwa [String.length_toList])]
    rfl
  · have hfirst := isFirstPosition_indexOfText s.toList t.toList (number f)
    rwa [String.length_toList] at hfirst
  · have hy : StandsFor y (i + t.length : Nat) := by exact_mod_cast hy
    rw [callMethod_slice_numbers hx hy, Nat.add_sub_cancel_left, List.prefix_iff_eq_take,
      String.length_toList, Except.ok.injEq, string.injEq, ← String.toList_inj,
      String.toList_ofList, eq_comm]

/-- The second character of a text of three, and what is behind its end. -/
theorem positions_agree_two_bytes :
    StandsFor (ofNat 1) (1 : Nat) ∧ StandsFor (ofNat 2) (1 + 1 : Nat) ∧
    StandsFor (ofNat 3) (3 : Nat) ∧ (∃ c,
      (string "añb").itemAt (ofNat 1) = .ok (string (.singleton c)) ∧
        (string "añb").callMethod .charAt [number (ofNat 1)] = .ok (string (.singleton c)) ∧
        (string "añb").callMethod .slice [number (ofNat 1), number (ofNat 2)] =
          .ok (string (.singleton c))) ∧
    (string "añb").itemAt (ofNat 3) = .ok undefined ∧
    ((string "añb").callMethod .slice [number (ofNat 1), number (ofNat 2)] = .ok (string "ñ") ↔
      "ñ".toList <+: "añb".toList.drop 1) := by
  have h1 : StandsFor (ofNat 1) (1 : Nat) := Number.standsFor_ofNat (by decide)
  have h2 : StandsFor (ofNat 2) (1 + 1 : Nat) := Number.standsFor_ofNat (by decide)
  have h3 : StandsFor (ofNat 3) (3 : Nat) := Number.standsFor_ofNat (by decide)
  obtain ⟨_, -, -, hinside, houtside, -, hslice, -⟩ := positions_agree "añb"
  obtain ⟨c, hitem, hchar, hcut, -⟩ := hinside 1 _ _ h1 h2 (by decide)
  exact ⟨h1, h2, h3, ⟨c, hitem, hchar, hcut⟩, (houtside 3 _ undefined h3 (by decide)).1 (by decide),
    hslice "ñ" 1 _ _ h1 h2⟩

end Value

end HtmlTemplate
