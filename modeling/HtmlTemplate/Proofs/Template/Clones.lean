import HtmlTemplate.Proofs.Template.Steps

/-!
# The clones of a repeated element

An element that is repeated is compiled again, on the data of every item, as a clone that lacks the
attribute of the repeating directive. Directives that were bound before may have changed its
children and added a style, and names may stand on an element more than once. What tells that this
comes to an end is the number of marker attributes: every directive costs the element one, and the
style that it may get in return is one of them only if the mark is such that `style` begins with it.

## The invariant

While attributes are bound, the element has all those that are still to come, so that each of them
is really there to be taken off, no more marker attributes than at the start, and of every name no
more attributes than at the start, except for one style (`Options.Sheds`).

## Why count

An element may have two attributes of one name, and erasing takes off the first of them, so the set
of its names does not shrink. The number of its marker attributes does. A style that a directive
adds could count as one more only if the mark is a beginning of `style`, and then it takes the place
of the attribute that the directive cost.
-/

namespace HtmlTemplate

/-! ## Names -/

namespace Attribute

theorem count_eq_count_map (as : List Attribute) (key : String) :
    count as key = (as.map name).count key := by
  rw [count, List.count, List.countP_map]
  rfl

theorem count_set_le (as : List Attribute) (key value name : String) :
    count (set key value as) name ≤ max (count as name) (if name = key then 1 else 0) := by
  rw [count_eq_count_map, count_eq_count_map, map_name_set]
  by_cases hmem : key ∈ as.map Attribute.name
  · rw [if_pos hmem]
    exact Nat.le_max_left _ _
  · rw [if_neg hmem, List.count_append]
    by_cases hname : name = key
    · subst hname
      rw [List.count_eq_zero_of_not_mem hmem, List.count_singleton_self, if_pos rfl]
      exact Nat.le_max_right _ _
    · have hnew : [key].count name = 0 := List.count_eq_zero_of_not_mem (by simpa using hname)
      rw [hnew, Nat.add_zero]
      exact Nat.le_max_left _ _

theorem mem_map_name_iff {as : List Attribute} {key : String} :
    key ∈ as.map name ↔ 0 < count as key := by
  rw [count_eq_count_map, List.count_pos_iff]

end Attribute

variable {options : Options} {data : Data}

/-! ## Marker attributes -/

namespace Options

/-- Is an attribute of the name read as a directive: does it carry the mark, or may it have
priority? -/
def isMarker (options : Options) (key : String) : Bool :=
  (options.directiveOf? key).isSome ||
    options.priority.any fun name ↦ options.attributeOf name == key

def markers (options : Options) (e : Element) : Nat :=
  (e.attributes.map Attribute.name).countP options.isMarker

/-- The element has no more marker attributes than the one that it was bound from, and of every name
no more attributes, except for one style. -/
structure Sheds (options : Options) (e f : Element) : Prop where
  markers : options.markers f ≤ options.markers e
  count : ∀ key, Attribute.count f.attributes key ≤
    Attribute.count e.attributes key + if key = "style" then 1 else 0

end Options

theorem isMarker_of_priorityOn? {e : Element} {m : PriorityMatch}
    (h : options.priorityOn? e = some m) : options.isMarker m.key = true := by
  obtain ⟨hname, hkey, -⟩ := attribute?_of_findPriority h
  rw [Options.isMarker, Bool.or_eq_true, List.any_eq_true]
  exact Or.inr ⟨m.name, hname, beq_iff_eq.mpr hkey.symm⟩

theorem markers_eraseAttribute {e : Element} {key : String} (hkey : options.isMarker key = true)
    (h : 0 < Attribute.count e.attributes key) :
    options.markers (e.eraseAttribute key) + 1 = options.markers e := by
  have hmem := Attribute.mem_map_name_iff.mpr h
  rw [Options.markers, Options.markers, Element.eraseAttribute, Attribute.map_name_erase,
    (List.perm_cons_erase hmem).countP_eq, List.countP_cons_of_pos hkey]

/-- Setting a value adds its name, if that is not there. -/
theorem markers_setAttribute_le (e : Element) (key value : String) :
    options.markers (e.setAttribute key value) ≤ options.markers e + 1 := by
  rw [Options.markers, Options.markers, Element.setAttribute, Attribute.map_name_set]
  split_ifs
  · exact Nat.le_succ _
  · rw [List.countP_append]
    exact Nat.add_le_add_left List.countP_le_length _

namespace Options.Sheds

variable {e f g : Element} {key value name : String} {d : Bool}

theorem refl (e : Element) : options.Sheds e e := ⟨Nat.le_refl _, fun _ ↦ Nat.le_add_right _ _⟩

/-- A directive leaves the element with one style more at most, and costs it an attribute. -/
theorem leaves (h : options.Sheds e f) (hkey : options.isMarker key = true)
    (hmem : 0 < Attribute.count f.attributes key)
    (hl : Directive.Leaves name (f.eraseAttribute key) d g) : options.Sheds e g := by
  have herase := markers_eraseAttribute hkey hmem
  have hcount (n : String) : Attribute.count (f.eraseAttribute key).attributes n ≤
      Attribute.count e.attributes n + if n = "style" then 1 else 0 := by
    have := h.count n
    rw [Element.eraseAttribute, Attribute.count_erase]
    omega
  have hmarkers := h.markers
  rcases hl with _ | value | ⟨-, s⟩
  · exact ⟨by omega, hcount⟩
  · have hset : options.markers ((f.eraseAttribute key).setStyleProperty "display" value) ≤
        options.markers (f.eraseAttribute key) + 1 := markers_setAttribute_le _ _ _
    refine ⟨by omega, fun n ↦ ?_⟩
    have hone :
        Attribute.count ((f.eraseAttribute key).setStyleProperty "display" value).attributes n ≤
        max (Attribute.count (f.eraseAttribute key).attributes n) (if n = "style" then 1 else 0) :=
      Attribute.count_set_le _ _ _ _
    have := hcount n
    omega
  · have hle : options.markers (f.eraseAttribute key) ≤ options.markers e := by omega
    exact ⟨hle, hcount⟩

/-- A new value in the place of an old one. -/
theorem setAttribute (h : options.Sheds e f) (hmem : 0 < Attribute.count f.attributes key) :
    options.Sheds e (f.setAttribute key value) := by
  have hnames : (f.setAttribute key value).attributes.map Attribute.name =
      f.attributes.map Attribute.name := by
    rw [Element.setAttribute, Attribute.map_name_set, if_pos (Attribute.mem_map_name_iff.mpr hmem)]
  refine ⟨?_, fun n ↦ ?_⟩
  · have hmarkers := h.markers
    rwa [Options.markers, ← hnames] at hmarkers
  · rw [Attribute.count_eq_count_map, hnames, ← Attribute.count_eq_count_map]
    exact h.count n

theorem step {a : Attribute} (h : options.Sheds e f) (ha : 0 < Attribute.count f.attributes a.name)
    (hs : options.Step a f d g) : options.Sheds e g := by
  rcases hs with ⟨hname, hl⟩ | ⟨-⟩ | ⟨-, value⟩
  · refine h.leaves ?_ ha hl
    rw [isMarker, hname]
    rfl
  · exact h
  · exact h.setAttribute ha

theorem start (hs : options.Start e d f) : options.Sheds e f := by
  rcases hs with ⟨-⟩ | ⟨hm, hl⟩
  · exact refl e
  · exact (refl e).leaves (isMarker_of_priorityOn? hm) (count_of_findPriority hm) hl

end Options.Sheds

theorem Options.Step.count_le_count {a : Attribute} {as : List Attribute} {e f : Element} {d : Bool}
    (h : ∀ key, Attribute.count (a :: as) key ≤ Attribute.count e.attributes key)
    (hs : options.Step a e d f) (key : String) :
    Attribute.count as key ≤ Attribute.count f.attributes key := by
  have hkey := h key
  rw [Attribute.count_cons] at hkey
  have herase :
      Attribute.count as key ≤ Attribute.count (e.eraseAttribute a.name).attributes key := by
    rw [Element.eraseAttribute, Attribute.count_erase]
    omega
  rcases hs with ⟨-, hl⟩ | ⟨-⟩ | ⟨-, value⟩
  · rcases hl with _ | value | ⟨-, s⟩
    · exact herase
    · exact Nat.le_trans herase (Attribute.count_le_count_set _ _ _ _)
    · exact herase
  · omega
  · exact Nat.le_trans (by omega) (Attribute.count_le_count_set _ _ _ _)

/-! ## Clones -/

/-- **A clone has strictly fewer marker attributes.** It is an element that binding led to, without
the attribute that repeats it, which was there. -/
theorem exists_eraseAttribute_of_repeats {e t : Element} {d : Directive} {aliases : Aliases}
    {v : Value} (h : bindElement options data e = .ok (.repeats t d aliases v)) :
    options.markers t < options.markers e ∧
      ∃ f key, t = f.eraseAttribute key ∧ options.isMarker key = true ∧
        0 < Attribute.count f.attributes key ∧ options.Sheds e f := by
  have hclone {f : Element} {key : String} (hkey : options.isMarker key = true)
      (hmem : 0 < Attribute.count f.attributes key) (hf : options.Sheds e f) :
      options.markers (f.eraseAttribute key) < options.markers e := by
    have := markers_eraseAttribute hkey hmem
    have := hf.markers
    omega
  -- what is still to come is on the element, and so is the marker that repeats it
  have hbound := bindElement_induction
    (I := fun as _ f ↦ options.Sheds e f ∧
      ∀ key, Attribute.count as key ≤ Attribute.count f.attributes key)
    (fun {a as _ f d g} hf hs ↦ by
      have ha : 0 < Attribute.count f.attributes a.name := by
        have := hf.2 a.name
        rw [Attribute.count_cons, if_pos rfl] at this
        omega
      exact ⟨hf.1.step ha hs, hs.count_le_count hf.2⟩)
    (fun hs ↦ ⟨.start hs, fun _ ↦ Nat.le_refl _⟩) h
  rcases hbound with ⟨m, d, aliases, v, hm, hb⟩ | ⟨_, _, hb, _⟩ |
    ⟨a, as, descend, f, d, aliases, v, ⟨hf, htodo⟩, hmark, hb⟩
  · obtain ⟨rfl, -⟩ := Bound.repeats.inj hb
    have hkey := isMarker_of_priorityOn? hm
    have hmem := count_of_findPriority hm
    exact ⟨hclone hkey hmem (.refl e), e, m.key, rfl, hkey, hmem, .refl e⟩
  · exact nomatch hb
  · obtain ⟨rfl, -⟩ := Bound.repeats.inj hb
    have hkey : options.isMarker a.name = true := by rw [Options.isMarker, hmark, Bool.true_or]
    have hmem : 0 < Attribute.count f.attributes a.name := by
      have := htodo a.name
      rw [Attribute.count_cons, if_pos rfl] at this
      omega
    exact ⟨hclone hkey hmem hf, f, a.name, rfl, hkey, hmem, hf⟩

end HtmlTemplate
