import FlowPack.Settings.Printer
import FlowPack.Proofs.Settings.Checking
import FlowPack.Proofs.Settings.Reading
import FlowPack.Proofs.Yaml.Alphabet

namespace FlowPack.Settings

open Yaml (Document Field IsName Node Spells)
open Yaml.Printer (Kept margin)

def keys : List String :=
  ["log_level", "annotation", "pointer_tags", "string_tags", "output", "sync", "archive",
    "variant", "base_offset", "names_file"]

def marks : List (List Char) :=
  [[], "version: ".toList, ['\n'], [':', ' '], [':', '\n'], ": []\n".toList, "- ".toList]

def texts (s : Settings) : List Text := [s.logLevel, s.variant, s.baseOffset, s.namesFile]

theorem toList_item (tag : Int) :
    s!"- {tag}\n".toList = "- ".toList ++ ((toString tag).toList ++ ['\n']) := by
  have : s!"- {tag}\n" = "- " ++ (toString tag ++ "\n") := by
    rw [← String.append_assoc]
    rfl
  rw [this, String.toList_append, String.toList_append]
  rfl

/-- What holds of the parts that every document is made of, and of any two texts in a row. -/
structure OfParts (p : List Char → Prop) : Prop where
  append : ∀ {cs ds}, p cs → p ds → p (cs ++ ds)
  margin : ∀ width, p (margin width)
  number : ∀ n : Int, p (toString n).toList
  key : ∀ key ∈ keys, p key.toList
  mark : ∀ mark ∈ marks, p mark

section Parts

variable {p : List Char → Prop} (hp : OfParts p) (width : Nat) (key : String) (hkey : key ∈ keys)

include hp

theorem OfParts.key_mark (hkey : key ∈ keys) {mark : List Char} (hmark : mark ∈ marks) :
    p (Yaml.Printer.margin width ++ key.toList ++ mark) :=
  hp.append (hp.append (hp.margin width) (hp.key key hkey)) (hp.mark mark hmark)

theorem OfParts.tagItems (tags : List Int) :
    p (tags.flatMap fun tag => Yaml.Printer.margin width ++ s!"- {tag}\n".toList) := by
  induction tags with
  | nil => exact hp.mark [] (by decide)
  | cons tag tags ih =>
    have hitem : p ("- ".toList ++ ((toString tag).toList ++ ['\n'])) :=
      hp.append (hp.mark _ (by decide)) (hp.append (hp.number tag) (hp.mark _ (by decide)))
    rw [List.flatMap_cons, toList_item]
    exact hp.append (hp.append (hp.margin width) hitem) ih

include hkey

theorem OfParts.keyLine : p (Settings.keyLine width key) := hp.key_mark width key hkey (by decide)

theorem OfParts.textLine {t : Text} (ht : ∀ width, p (Yaml.Printer.text width t)) :
    p (Settings.textLine width key t) :=
  hp.append (hp.key_mark width key hkey (by decide)) (ht _)

theorem OfParts.optionalLine {t : Text} (ht : ∀ width, p (Yaml.Printer.text width t)) :
    p (Settings.optionalLine width key t) := by
  unfold Settings.optionalLine
  split
  · exact hp.mark _ (by decide)
  · exact hp.textLine width key hkey ht

theorem OfParts.tagLines (tags : List Int) : p (Settings.tagLines width key tags) := by
  unfold Settings.tagLines
  split
  · exact hp.key_mark width key hkey (by decide)
  · exact hp.append (hp.keyLine width key hkey) (hp.tagItems _ tags)

end Parts

theorem OfParts.render {p : List Char → Prop} (hp : OfParts p) {s : Settings}
    (hsync : ∀ width, p (Yaml.Printer.text width (.ofString s.sync.name)))
    (htext : ∀ t ∈ s.texts, ∀ width, p (Yaml.Printer.text width t)) : p s.render := by
  have hversion : p ("version: ".toList ++ (toString s.version).toList ++ ['\n']) :=
    hp.append (hp.append (hp.mark _ (by decide)) (hp.number _)) (hp.mark _ (by decide))
  have hlevel := hp.textLine 0 "log_level" (by decide) (htext s.logLevel (by simp [texts]))
  have hpointers := hp.tagLines 4 "pointer_tags" (by decide) s.pointers
  have hstrings := hp.tagLines 4 "string_tags" (by decide) s.strings
  have hsyncs := hp.textLine 4 "sync" (by decide) hsync
  have hvariant := hp.textLine 4 "variant" (by decide) (htext s.variant (by simp [texts]))
  have hbase :=
    hp.optionalLine 4 "base_offset" (by decide) (htext s.baseOffset (by simp [texts]))
  have hnames :=
    hp.optionalLine 4 "names_file" (by decide) (htext s.namesFile (by simp [texts]))
  have hannotation := hp.keyLine 0 "annotation" (by decide)
  have houtput := hp.keyLine 0 "output" (by decide)
  have harchive := hp.keyLine 0 "archive" (by decide)
  refine hp.append (hp.append (hp.append (hp.append ?_ harchive) hvariant) hbase) hnames
  refine hp.append (hp.append ?_ houtput) hsyncs
  exact hp.append (hp.append (hp.append (hp.append hversion hlevel) hannotation) hpointers) hstrings

theorem plainChars?_map {cs : List Char} (h : ∀ c ∈ cs, Yaml.isAllowed c = true) :
    Yaml.plainChars? (cs.map .char) = some cs := by
  induction cs with
  | nil => rfl
  | cons c cs ih =>
    rw [List.forall_mem_cons] at h
    rw [List.map_cons, Yaml.plainChars?, if_pos h.1, ih h.2]
    rfl

theorem isAllowed_of_mem_render (s : Settings) : ∀ c ∈ s.render, Yaml.isAllowed c = true := by
  have hkeys : ∀ key ∈ keys, key.toList.all Yaml.isAllowed = true := by decide
  have hmarks : ∀ mark ∈ marks, mark.all Yaml.isAllowed = true := by decide
  have hp : OfParts fun cs => ∀ c ∈ cs, Yaml.isAllowed c = true := by
    refine ⟨fun hcs hds => List.forall_mem_append.mpr ⟨hcs, hds⟩, ?_, ?_,
      fun key h => List.all_eq_true.mp (hkeys key h),
      fun mark h => List.all_eq_true.mp (hmarks mark h)⟩
    · intro width c hc
      rw [List.eq_of_mem_replicate hc]
      decide
    · intro n c hc
      rcases Yaml.mem_toString hc with rfl | hd
      · decide
      · rw [Yaml.Printer.isAllowed_iff]
        have := Yaml.isDigit_iff.mp hd
        omega
  exact hp.render (fun width c => Yaml.Printer.isAllowed_of_mem_text)
    fun t _ width c => Yaml.Printer.isAllowed_of_mem_text

theorem chars?_document (s : Settings) : Yaml.chars? s.document = some s.render := by
  have hfirst : ∃ rest, s.document = 0x76 :: rest := ⟨_, rfl⟩
  have hchars : Yaml.chars? s.document = Yaml.plainChars? (Text.ofBytes s.document) := by
    obtain ⟨rest, hd⟩ := hfirst
    rw [hd]
    rfl
  rw [hchars, document, Text.ofBytes_bytes_map, plainChars?_map s.isAllowed_of_mem_render]

def textField (key : String) (t : Text) : Field := ⟨key.toList, Node.IsText t⟩

def optionalField (key : String) (t : Text) : List Field := if t = [] then [] else [textField key t]

def tagsField (key : String) (tags : List Int) : Field :=
  ⟨key.toList, Node.IsSequence Node.IsNumber (tags.map Int.toNat)⟩

def annotationFields (s : Settings) : List Field :=
  [tagsField "pointer_tags" s.pointers, tagsField "string_tags" s.strings]

def outputFields (s : Settings) : List Field := [textField "sync" (.ofString s.sync.name)]

def archiveFields (s : Settings) : List Field :=
  textField "variant" s.variant :: (optionalField "base_offset" s.baseOffset ++
    optionalField "names_file" s.namesFile)

def fields (s : Settings) : List Field :=
  [⟨"version".toList, Node.IsNumber s.version.toNat⟩, textField "log_level" s.logLevel,
    ⟨"annotation".toList, Node.IsMapping s.annotationFields⟩,
    ⟨"output".toList, Node.IsMapping s.outputFields⟩,
    ⟨"archive".toList, Node.IsMapping s.archiveFields⟩]

theorem isName_of_mem_keys : ∀ key ∈ keys, IsName key.toList := by decide

theorem toString_of_nonneg {n : Int} (h : 0 ≤ n) :
    (toString n).toList = Nat.toDigits 10 n.toNat := by
  obtain ⟨k, rfl⟩ := Int.eq_ofNat_of_zero_le h
  exact Yaml.toList_toString_ofNat k

theorem spells_textLine (w : Nat) (key : String) (hkey : key ∈ keys) {t : Text} (ht : Kept t) :
    Spells w (textLine w key t) [textField key t] :=
  .text (isName_of_mem_keys key hkey) ht

theorem spells_tagLines (w : Nat) (key : String) (hkey : key ∈ keys) {tags : List Int}
    (htags : ∀ tag ∈ tags, 0 ≤ tag) : Spells w (tagLines w key tags) [tagsField key tags] := by
  have hname := isName_of_mem_keys key hkey
  unfold tagLines
  cases tags with
  | nil =>
    rw [if_pos rfl, show ": []\n".toList = [':', ' '] ++ "[]\n".toList from rfl,
      ← List.append_assoc]
    exact .emptyList hname
  | cons tag tags =>
    have hitem : ∀ item ∈ tag :: tags, margin (w + 4) ++ s!"- {item}\n".toList =
        margin (w + 4) ++ Yaml.Lexer.itemLine item.toNat := by
      intro item h
      rw [toList_item, toString_of_nonneg (htags item h)]
      rfl
    have hitems : ((tag :: tags).flatMap fun tag => margin (w + 4) ++ s!"- {tag}\n".toList) =
        ((tag :: tags).map Int.toNat).flatMap fun n => margin (w + 4) ++ Yaml.Lexer.itemLine n := by
      rw [List.flatMap_map]
      exact List.flatMap_congr hitem
    rw [if_neg (List.cons_ne_nil tag tags), show Yaml.Printer.step = 4 from rfl, hitems]
    exact .numbers hname _ _

theorem spells_optionalLine (w : Nat) (key : String) (hkey : key ∈ keys) {t : Text} (ht : Kept t)
    {lines : List Char} {fs : List Field} (h : Spells w lines fs) :
    Spells w (lines ++ optionalLine w key t) (fs ++ optionalField key t) := by
  unfold optionalLine optionalField
  split
  · rwa [List.append_nil, List.append_nil]
  · exact h.append (spells_textLine w key hkey ht)

theorem spells_keyLine (w : Nat) (key : String) (hkey : key ∈ keys) {lines : List Char}
    {fs : List Field} (h : Spells (w + 4) lines fs) :
    Spells w (keyLine w key ++ lines) [⟨key.toList, Node.IsMapping fs⟩] :=
  .mapping (isName_of_mem_keys key hkey) h

theorem spells_render {s : Settings} (hversion : 0 ≤ s.version)
    (htags : ∀ tag ∈ s.pointers ++ s.strings, 0 ≤ tag) (hsync : Kept (.ofString s.sync.name))
    (hkept : ∀ t ∈ s.texts, Kept t) : Spells 0 s.render s.fields := by
  have hnumber : Spells 0 ("version: ".toList ++ (toString s.version).toList ++ ['\n'])
      [⟨"version".toList, Node.IsNumber s.version.toNat⟩] := by
    rw [toString_of_nonneg hversion, List.append_assoc,
      show "version: ".toList = margin 0 ++ "version".toList ++ [':', ' '] from rfl]
    exact .number (by decide) s.version.toNat
  have hlevel := spells_textLine 0 "log_level" (by decide) (hkept s.logLevel (by simp [texts]))
  have hpointers := spells_tagLines 4 "pointer_tags" (by decide) fun tag htag =>
    htags tag (List.mem_append_left _ htag)
  have hstrings := spells_tagLines 4 "string_tags" (by decide) fun tag htag =>
    htags tag (List.mem_append_right _ htag)
  have hsyncLine := spells_textLine 4 "sync" (by decide) hsync
  have hvariant := spells_textLine 4 "variant" (by decide) (hkept s.variant (by simp [texts]))
  have hbase := spells_optionalLine 4 "base_offset" (by decide)
    (hkept s.baseOffset (by simp [texts])) hvariant
  have hnames := spells_optionalLine 4 "names_file" (by decide)
    (hkept s.namesFile (by simp [texts])) hbase
  have htagFields := spells_keyLine 0 "annotation" (by decide) (hpointers.append hstrings)
  have houtput := spells_keyLine 0 "output" (by decide) hsyncLine
  have harchive := spells_keyLine 0 "archive" (by decide) hnames
  have hall := (((hnumber.append hlevel).append htagFields).append houtput).append harchive
  simp only [List.append_assoc] at hall
  unfold render
  simp only [List.append_assoc]
  exact hall

/-- The settings as they come back from their document. -/
def reread (s : Settings) : Settings where
  version := s.version
  logLevel := .ofBytes s.logLevel.bytes
  pointerTags := some s.pointers
  stringTags := some s.strings
  sync := s.sync
  variant := .ofBytes s.variant.bytes
  baseOffset := .ofBytes s.baseOffset.bytes
  namesFile := .ofBytes s.namesFile.bytes

theorem parse?_name {mode : SyncMode} (h : mode = .none ∨ mode = .immediate) :
    SyncMode.parse? (.ofString mode.name) = some mode := by
  rcases h with rfl | rfl <;> decide

def annotationUpdates (s : Settings) : List (Settings → Settings) :=
  [fun a => { a with pointerTags := some s.pointers },
    fun a => { a with stringTags := some s.strings }]

def outputUpdates (s : Settings) : List (Settings → Settings) :=
  [fun a => { a with sync := s.sync }]

def archiveUpdates (s : Settings) : List (Settings → Settings) :=
  (fun a => { a with variant := .ofBytes s.variant.bytes }) ::
    ((if s.baseOffset = [] then []
      else [fun a => { a with baseOffset := .ofBytes s.baseOffset.bytes }]) ++
    (if s.namesFile = [] then []
      else [fun a => { a with namesFile := .ofBytes s.namesFile.bytes }]))

def updates (s : Settings) : List (Settings → Settings) :=
  [fun a => { a with version := s.version },
    fun a => { a with logLevel := .ofBytes s.logLevel.bytes },
    inOrder s.annotationUpdates, inOrder s.outputUpdates, inOrder s.archiveUpdates]

theorem inOrder_updates (s : Settings) : inOrder s.updates {} = s.reread := by
  have hempty : Text.ofBytes (Text.bytes []) = [] := Text.ofBytes_nil
  unfold updates archiveUpdates reread
  by_cases hb : s.baseOffset = [] <;> by_cases hn : s.namesFile = [] <;>
    simp [inOrder, annotationUpdates, outputUpdates, hb, hn, hempty]

section Shapes

variable (doc : Document) {s : Settings}

theorem readInts_of_tags {tags : List Int} (htags : ∀ tag ∈ tags, 0 ≤ tag ∧ tag ≤ 255)
    {n : Node} (hn : Node.IsSequence Node.IsNumber (tags.map Int.toNat) n) (seen : List Nat)
    (old : Option (List Int)) : readInts doc seen old n = pure (some tags) := by
  have hback : (tags.map Int.toNat).map (fun k : Nat => (k : Int)) = tags := by
    rw [List.map_map]
    exact (List.map_congr_left fun tag htag => Int.toNat_of_nonneg (htags tag htag).1).trans
      (List.map_id tags)
  rw [readInts_of_isSequence doc seen ?_ hn, hback]
  intro k hk
  obtain ⟨tag, htag, rfl⟩ := List.mem_map.mp hk
  have := htags tag htag
  have : Yaml.maxInt = 2 ^ 63 - 1 := rfl
  omega

theorem sets_tags (h : s.Valid) :
    List.Forall₂ (Sets (annotationShape doc)) s.annotationFields s.annotationUpdates := by
  have htags := List.forall_mem_append.mp h.tag_bounds
  refine .cons ⟨_, rfl, fun n hn seen a => ?_⟩ (.cons ⟨_, rfl, fun n hn seen a => ?_⟩ .nil)
  · rw [readInts_of_tags doc htags.1 hn, pure_bind]
  · rw [readInts_of_tags doc htags.2 hn, pure_bind]

theorem sets_output (h : s.Valid) :
    List.Forall₂ (Sets (outputShape doc)) s.outputFields s.outputUpdates := by
  refine .cons ⟨_, rfl, fun n hn seen a => ?_⟩ .nil
  rw [readSync_of_isText doc seen hn (parse?_name h.sync), pure_bind]

theorem sets_optional {shape : Shape Settings} {key : String} {t : Text}
    {update : Settings → Settings} (h : Sets shape (textField key t) update) :
    List.Forall₂ (Sets shape) (optionalField key t) (if t = [] then [] else [update]) := by
  unfold optionalField
  split
  · exact .nil
  · exact .cons h .nil

theorem sets_archive (s : Settings) :
    List.Forall₂ (Sets (archiveShape doc)) s.archiveFields s.archiveUpdates := by
  refine .cons ⟨_, rfl, fun n hn seen a => ?_⟩ (List.rel_append
    (sets_optional ⟨_, rfl, fun n hn seen a => ?_⟩) (sets_optional ⟨_, rfl, fun n hn seen a => ?_⟩))
  all_goals rw [readText_of_isText doc seen hn, pure_bind, Option.getD_some]

theorem keys_optional (key : String) (t : Text) :
    ((optionalField key t).map Field.key).Sublist [key.toList] := by
  unfold optionalField
  split
  · exact List.nil_sublist _
  · exact List.Sublist.refl _

theorem nodup_archive (s : Settings) : (s.archiveFields.map Field.key).Nodup := by
  have hsub : (s.archiveFields.map Field.key).Sublist
      ["variant".toList, "base_offset".toList, "names_file".toList] := by
    rw [archiveFields, List.map_cons, List.map_append]
    exact ((keys_optional _ _).append (keys_optional _ _)).cons_cons _
  exact List.Nodup.sublist hsub (by decide)

theorem sets_section {shape inner : Shape Settings} {fuel : Nat} {key : String}
    {fs : List Field} {us : List (Settings → Settings)}
    (hfield : shape.field? (.ofString key) = some (sectionField doc inner (fuel + 1)))
    (hsets : List.Forall₂ (Sets inner) fs us) (hkeys : (fs.map Field.key).Nodup) :
    Sets shape ⟨key.toList, Node.IsMapping fs⟩ (inOrder us) := by
  refine ⟨_, hfield, fun n hn seen a => ?_⟩
  rw [sectionField, readRecord_of_isMapping doc seen hsets hkeys hn, pure_bind]

theorem sets_fields (h : s.Valid) (hversion : s.version ≤ Yaml.maxInt) (fuel : Nat) :
    List.Forall₂ (Sets (settingsShape doc (fuel + 1))) s.fields s.updates := by
  have hnat := Int.toNat_of_nonneg (Int.le_of_lt h.version)
  have htagFields : (s.annotationFields.map Field.key).Nodup :=
    show ["pointer_tags".toList, "string_tags".toList].Nodup by decide
  have houtput : (s.outputFields.map Field.key).Nodup :=
    show ["sync".toList].Nodup by decide
  refine .cons ⟨_, rfl, fun n hn seen a => ?_⟩ (.cons ⟨_, rfl, fun n hn seen a => ?_⟩
    (.cons (sets_section doc rfl (sets_tags doc h) htagFields)
    (.cons (sets_section doc rfl (sets_output doc h) houtput)
    (.cons (sets_section doc rfl (sets_archive doc s) s.nodup_archive) .nil))))
  · rw [readInt_of_isNumber doc seen (hnat ▸ hversion) hn, pure_bind, Option.getD_some, hnat]
  · rw [readText_of_isText doc seen hn, pure_bind, Option.getD_some]

theorem ofDocument_of_isMapping (h : s.Valid) (hversion : s.version ≤ Yaml.maxInt)
    (hroot : Node.IsMapping s.fields doc.root) (fuel : Nat) :
    ofDocument (fuel + 2) doc {} = .ok s.reread := by
  have hkeys : (s.fields.map Field.key).Nodup :=
    show ["version".toList, "log_level".toList, "annotation".toList, "output".toList,
      "archive".toList].Nodup by decide
  have hsets := sets_fields doc h hversion (fuel + 1)
  rw [ofDocument, readRecord_of_isMapping doc [] hsets hkeys hroot, inOrder_updates]
  rfl

end Shapes

theorem kept_name {mode : SyncMode} (h : mode = .none ∨ mode = .immediate) :
    Kept (.ofString mode.name) := by
  rcases h with rfl | rfl <;> decide

/-- Settings that pass the check come back from their document, if their version is in range and
their texts are spelled without loss. -/
theorem parse_document {s : Settings} (h : s.Valid) (hversion : s.version ≤ Yaml.maxInt)
    (hkept : ∀ t ∈ s.texts, Kept t) : parse s.document = .ok s.reread := by
  have hspells := spells_render (Int.le_of_lt h.version)
    (fun tag htag => (h.tag_bounds tag htag).1) (kept_name h.sync) hkept
  obtain ⟨root, hroot, hdoc⟩ := hspells.parse?
  rw [parse, chars?_document, Option.bind_some, hdoc]
  exact ofDocument_of_isMapping _ h hversion hroot _

end FlowPack.Settings
