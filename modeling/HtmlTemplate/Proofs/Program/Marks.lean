import HtmlTemplate.Proofs.Program.Merging
import HtmlTemplate.Proofs.Template.Markers

/-!
# Marks that can be read

Every bind symbol but the empty one is accepted (`Config.exists_load_iff`). Whether it marks
anything is decided by the reader of markup, which reads the names of attributes in lower case and
ends them where a character stands that no name has. A bind symbol with a capital, a blank or a sign
of a tag in it is therefore at the front of no name, and marks nothing in any markup text
(`Markup.isPlainName_of_directiveOf?`). Every other one marks the directives that are written with
it, and is not left in a view (`Config.recognises_iff`).

## Why one paragraph is enough

A mark that is a plain name is recognised on every element, and one that is not is recognised on
none, so whether it can be read at all is decided by the simplest element that there is. The other
direction needs all markup texts: what was read by the reader of names is a plain name, wherever it
was read.
-/

namespace HtmlTemplate

theorem Directive.isPlainName_name (d : Directive) : IsPlainName d.name := by
  cases d <;> exact .of_all (by decide) (by decide)

/-! ## Reading a marked element -/

namespace Markup

theorem parse_of_quoted {source tag name : String} {raw : List Char} (htag : IsPlainTag tag)
    (hvoid : isVoidTag tag = false) (hrawtext : isRawTextTag tag = false) (hname : IsPlainName name)
    (hraw : '"' ∉ raw)
    (hsource : source.toList = '<' :: (tag.toList ++ ' ' :: (name.toList ++ '=' :: '"' ::
      (raw ++ '"' :: '>' :: Node.endTag tag)))) :
    parse source =
      .fragment [.element ⟨tag, [⟨name, String.ofList (Entity.decode raw)⟩], []⟩] := by
  -- the attributes end at the bracket, and the end tag is the only event behind them
  have hattributes := readAttributes_quoted ('>' :: Node.endTag tag) hname hraw
  rw [readAttributes_bracket] at hattributes
  have hend := events_endTag [] htag
  rw [List.append_nil, events] at hend
  have hevents : events source.toList =
      [.startTag tag [⟨name, String.ofList (Entity.decode raw)⟩] .opens, .endTag tag] := by
    rw [hsource, events_cons, next_startTag _ htag,
      readStartTag_append htag (by decide) hattributes (List.nodup_singleton _), hvoid, hrawtext,
      if_neg Bool.false_ne_true, if_neg Bool.false_ne_true, hend]
  have hnil : (build [] []).nodes = [] := by rw [build]
  obtain ⟨hchildren, hrest⟩ := nodes_build_endTag [] [] tag
  rw [parse, parseNodes, hevents, (nodes_build_opens [] _ _ rfl).1, hchildren, hrest, hnil]

/-- **What marks an attribute of a markup text is a plain name.** -/
theorem isPlainName_of_directiveOf? {options : Options} {source name : String} {e : Element}
    {a : Attribute} (he : e ∈ (parse source).elements) (ha : a ∈ e.attributes)
    (h : options.directiveOf? a.name = some name) : IsPlainName options.bindSymbol := by
  rw [parse, Node.elements] at he
  -- names that are read are plain, and the mark is the front of one
  have hplain : IsPlainName a.name :=
    (Node.isPlain_of_mem_elementsAll (areCanonical_parseNodes _) he).names a ha
  rw [attributeOf_of_directiveOf? h, Options.attributeOf] at hplain
  exact hplain.of_append (bindSymbol_ne_of_directiveOf? h)

end Markup

/-! ## Marks that are recognised -/

namespace Options

variable {options : Options} {expression : String}

/-- A paragraph with a directive, as it is written with the mark. -/
def paragraph (options : Options) (d : Directive) (expression : String) : String :=
  "<p " ++ options.attributeOf d.name ++ "=\"" ++ expression ++ "\"></p>"

/-- Is the directive on the paragraph recognised: is the paragraph read as one with the expression
on an attribute of the directive, and is that attribute taken off in all its views? -/
def Recognises (options : Options) (d : Directive) (expression : String) : Prop :=
  ∃ e : Element, Markup.parse (options.paragraph d expression) = .fragment [.element e] ∧
    e.tag = "p" ∧
    ∃ a ∈ e.attributes, a.value = expression ∧ options.directiveOf? a.name = some d.name ∧
      ∀ data view, compileMarkup options data (options.paragraph d expression) = .ok view →
        ∀ f ∈ view.elements, ∀ b ∈ f.attributes, b.name ≠ a.name

/-- Can all characters of the mark be read in the name of an attribute? -/
def HasReadableMark (options : Options) : Prop :=
  ∀ c ∈ options.bindSymbol.toList, Markup.isAttributeChar c = true ∧ c.isUpper = false

private theorem parse_paragraph (hmark : IsPlainName options.bindSymbol) (d : Directive)
    (hquote : '"' ∉ expression.toList) (hampersand : '&' ∉ expression.toList) :
    Markup.parse (options.paragraph d expression) =
      .fragment [.element ⟨"p", [⟨options.attributeOf d.name, expression⟩], []⟩] := by
  have hname : IsPlainName (options.attributeOf d.name) := hmark.append d.isPlainName_name
  have hsource : (options.paragraph d expression).toList = '<' :: ("p".toList ++ ' ' ::
      ((options.attributeOf d.name).toList ++ '=' :: '"' ::
        (expression.toList ++ '"' :: '>' :: Node.endTag "p"))) := by
    simp [paragraph, Node.endTag]
  have hparse := Markup.parse_of_quoted (.of_all rfl rfl rfl) (by decide) (by decide) hname hquote
    hsource
  rwa [Entity.decode_of_not_mem hampersand, String.ofList_toList] at hparse

theorem recognises_of_isPlainName (hmark : IsPlainName options.bindSymbol) (d : Directive)
    (hquote : '"' ∉ expression.toList) (hampersand : '&' ∉ expression.toList) :
    options.Recognises d expression := by
  have hdirective : options.directiveOf? (options.attributeOf d.name) = some d.name :=
    directiveOf?_attributeOf hmark.1 d.name
  refine ⟨_, parse_paragraph hmark d hquote hampersand, rfl, _, List.mem_singleton_self _, rfl,
    hdirective, fun data view hview ↦ ?_⟩
  -- the name is read as it was written, and no marked name is left in a view
  have hmarked : options.directiveOf? (options.attributeOf d.name) ≠ none := by
    rw [hdirective]
    exact Option.some_ne_none _
  exact name_ne_of_compile hmarked (attributeOf_name_ne_style d).symm hview

theorem isPlainName_of_recognises {d : Directive} (h : options.Recognises d expression) :
    IsPlainName options.bindSymbol := by
  obtain ⟨e, hparse, -, a, ha, -, hdirective, -⟩ := h
  have he : e ∈ (Markup.parse (options.paragraph d expression)).elements := by
    rw [hparse]
    exact Node.mem_elementsAll.mpr ⟨_, List.mem_singleton_self _, Node.self_mem_elements e⟩
  exact Markup.isPlainName_of_directiveOf? he ha hdirective

end Options

namespace Config

variable {files : String → Option File} {a : Arguments} {c : Config} {expression : String}

/-! ## Accepted marks

Loading refuses an empty bind symbol and nothing else about it. -/

theorem bindSymbol_ne_of_load (h : load files a = .ok c) : c.options.bindSymbol ≠ "" := by
  obtain ⟨said, hsaid⟩ | ⟨path, hpath, hreads | ⟨text, hreads, hdocument⟩⟩ :=
    fileSays_cases files (path? files a)
  · rw [load_of_fileSays rfl hsaid rfl] at h
    split_ifs at h with hmark
    obtain rfl := Except.ok.inj h
    exact hmark
  · rw [load_of_readFile hpath (readFile_of_not_text hreads)] at h
    exact nomatch h
  · rw [load_of_readFile hpath (readFile_of_not_document hreads hdocument)] at h
    exact nomatch h

/-- Every bind symbol but the empty one is accepted. -/
theorem exists_load_iff {symbol : String} :
    (∃ files a c, load files a = .ok c ∧ c.options.bindSymbol = symbol) ↔ symbol ≠ "" := by
  constructor
  · rintro ⟨files, a, c, hload, rfl⟩
    exact bindSymbol_ne_of_load hload
  · intro hsymbol
    let a : Arguments := { template := "page.html", bind := symbol }
    -- where there is no file, the symbol among the arguments is all that counts
    have hchosen : path? (fun _ ↦ none) a = none := find?_eq_none_iff.mpr fun _ _ _ ↦ rfl
    have hload := load_of_fileSays hchosen .nothing rfl
    exact ⟨_, a, _, hload.trans (if_neg hsymbol), rfl⟩

/-- **An accepted bind symbol marks directives if and only if it can be read.** -/
theorem recognises_iff (hload : load files a = .ok c) (d : Directive)
    (hquote : '"' ∉ expression.toList) (hampersand : '&' ∉ expression.toList) :
    c.options.Recognises d expression ↔ c.options.HasReadableMark := by
  constructor
  · intro hrecognised
    exact (Options.isPlainName_of_recognises hrecognised).2
  · intro hreadable
    have hmark : IsPlainName c.options.bindSymbol := ⟨bindSymbol_ne_of_load hload, hreadable⟩
    exact Options.recognises_of_isPlainName hmark d hquote hampersand

/-- A bind symbol of two characters, which a file has. -/
theorem recognises_iff_file :
    let files : String → Option File := fun path ↦
      if path = "views/weave.json" then some (.text "[\"x-\"]") else none
    let a : Arguments := { template := "views/page.html" }
    let options : Options := { bindSymbol := "x-" }
    load files a = .ok ⟨some "views/weave.json", options⟩ ∧
      '"' ∉ "a < b".toList ∧ '&' ∉ "a < b".toList ∧ options.HasReadableMark ∧
      options.Recognises .display "a < b" := by
  intro files a options
  have hload : load files a = .ok ⟨some "views/weave.json", options⟩ := by decide +kernel
  have hquote : '"' ∉ "a < b".toList := by decide
  have hampersand : '&' ∉ "a < b".toList := by decide
  have hmark : IsPlainName options.bindSymbol := .of_all (by decide) (by decide)
  exact ⟨hload, hquote, hampersand, hmark.2,
    (recognises_iff hload .display hquote hampersand).mpr hmark.2⟩

/-- A bind symbol with a capital is accepted, but the name of an attribute is read without it. -/
theorem not_recognises :
    ¬∀ (files : String → Option File) (a : Arguments) (c : Config) (d : Directive)
      (expression : String), load files a = .ok c → '"' ∉ expression.toList →
      '&' ∉ expression.toList →
    c.options.Recognises d expression := by
  intro h
  have hload : load (fun _ ↦ none) { template := "page.html", bind := "X-" } =
      .ok ⟨none, { bindSymbol := "X-" }⟩ := by decide +kernel
  have hrecognised := h _ _ _ .display "v" hload (by decide) (by decide)
  have hcapital := (Options.isPlainName_of_recognises hrecognised).2 'X' (by decide)
  exact absurd hcapital.2 (by decide)

end Config

end HtmlTemplate
