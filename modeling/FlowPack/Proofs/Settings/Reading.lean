import FlowPack.Settings.Document
import FlowPack.Proofs.Yaml.Parsing

namespace FlowPack.Settings

open Yaml (Document Node Scalar Tag Field)

variable (doc : Document) (seen : List Nat)

theorem meaning_of_read? {tag : Tag} {text : List Char} {s : Scalar}
    (h : Scalar.read? tag text = some s) : meaning tag text = pure s := by
  rw [meaning, h]

theorem read?_of_string {tag : Tag} (h : tag = Tag.str ∨ tag = Tag.merge) (text : List Char) :
    Scalar.read? tag text = some (.str (text.map .char)) := by
  have hbinary : tag ≠ Tag.binary := by rcases h with rfl | rfl <;> decide
  have hbasic : tag ∉ Scalar.basicTags := by rcases h with rfl | rfl <;> decide
  rw [Scalar.read?, if_neg hbinary, if_pos hbasic]

theorem follow_scalar (line : Nat) (tag : Tag) (text : List Char) :
    follow doc seen (.scalar line tag text) = pure (.scalar line tag text, seen) := rfl

theorem follow_sequence (line : Nat) (tag : Tag) (items : List Node) :
    follow doc seen (.sequence line tag items) = pure (.sequence line tag items, seen) := rfl

theorem follow_mapping (line : Nat) (tag : Tag) (pairs : List (Node × Node)) :
    follow doc seen (.mapping line tag pairs) = pure (.mapping line tag pairs, seen) := rfl

theorem readText_of_string {n : Node} {tag : Tag} {text : List Char}
    (htag : tag = Tag.str ∨ tag = Tag.merge) (h : Node.IsLeaf tag text n) :
    readText doc seen n = pure (some (text.map .char)) := by
  obtain ⟨line, rfl⟩ := h
  rw [readText, follow_scalar, pure_bind]
  dsimp only
  rw [meaning_of_read? (read?_of_string htag text), pure_bind]

theorem readText_of_binary {n : Node} {text : List Char} {data : Bytes}
    (hdata : Base64.decode? text = some data) (h : Node.IsLeaf Tag.binary text n) :
    readText doc seen n = pure (some (.ofBytes data)) := by
  obtain ⟨line, rfl⟩ := h
  have hread : Scalar.read? Tag.binary text = some (.binary (.ofBytes data)) := by
    rw [Scalar.read?, if_pos rfl, hdata]
    rfl
  rw [readText, follow_scalar, pure_bind]
  dsimp only
  rw [meaning_of_read? hread, pure_bind]

theorem defaultTag_of_readsAsString {isPlain : Bool} {cs : List Char}
    (h : isPlain = true → Yaml.Printer.readsAsString cs = true) :
    Yaml.Grammar.defaultTag isPlain cs = Tag.str ∨
      Yaml.Grammar.defaultTag isPlain cs = Tag.merge := by
  cases isPlain with
  | false => exact .inl rfl
  | true =>
    have hread := h rfl
    rw [Yaml.Printer.readsAsString, Bool.and_eq_true, Bool.and_eq_true] at hread
    have htag : (Scalar.ofPlain true cs).tag = Tag.str := eq_of_beq hread.1.1
    by_cases hmerge : cs = ['<', '<']
    · exact .inr (by rw [hmerge]; rfl)
    · exact .inl (by simpa [Yaml.Grammar.defaultTag, hmerge] using htag)

theorem isLeaf_of_isText {cs : List Char} {n : Node} (h : Node.IsText (cs.map .char) n) :
    ∃ tag, (tag = Tag.str ∨ tag = Tag.merge) ∧ Node.IsLeaf tag cs n := by
  unfold Node.IsText at h
  rw [Yaml.Printer.chars?_map] at h
  refine ⟨_, defaultTag_of_readsAsString fun hplain => ?_, h⟩
  simp only [Yaml.Printer.writesPlain, Bool.and_eq_true] at hplain
  exact hplain.2.1

theorem readText_of_isText {t : Text} {n : Node} (h : Node.IsText t n) :
    readText doc seen n = pure (some (.ofBytes t.bytes)) := by
  cases hchars : Yaml.Printer.chars? t with
  | some cs =>
    obtain rfl := Yaml.Printer.eq_map_of_chars? hchars
    obtain ⟨tag, htag, hleaf⟩ := isLeaf_of_isText h
    rw [Text.ofBytes_bytes_map]
    exact readText_of_string doc seen htag hleaf
  | none =>
    unfold Node.IsText at h
    rw [hchars] at h
    exact readText_of_binary doc seen
      (Base64.decode?_of_filter (Yaml.Printer.filter_base64Lines _)) h

theorem readInt_of_isNumber {k : Nat} {n : Node} (hk : (k : Int) ≤ Yaml.maxInt)
    (h : Node.IsNumber k n) : readInt doc seen n = pure (some (k : Int)) := by
  obtain ⟨line, rfl⟩ := h
  have htag : Yaml.Grammar.defaultTag true (Nat.toDigits 10 k) = Tag.int := by
    have hmerge : Nat.toDigits 10 k ≠ ['<', '<'] := by
      intro he
      have hdigit : '<' ∈ Nat.toDigits 10 k := by rw [he]; exact List.mem_cons_self
      exact absurd (Yaml.isDigit_of_mem_toDigits hdigit) (by decide)
    simp [Yaml.Grammar.defaultTag, hmerge, Scalar.ofPlain_toDigits hk, Scalar.tag]
  have hread : Scalar.read? Tag.int (Nat.toDigits 10 k) = some (.int k) := by
    rw [Scalar.read?, if_neg (by decide), if_neg (by decide), Scalar.ofPlain_toDigits hk]
    rfl
  rw [htag, readInt, follow_scalar, pure_bind]
  dsimp only
  rw [meaning_of_read? hread, pure_bind]
  simp [hk]

theorem readInts_of_isSequence {ks : List Nat} {n : Node} (hks : ∀ k ∈ ks, (k : Int) ≤ Yaml.maxInt)
    (h : Node.IsSequence Node.IsNumber ks n) (old : Option (List Int)) :
    readInts doc seen old n = pure (some (ks.map fun k : Nat => (k : Int))) := by
  obtain ⟨line, items, rfl, hitems⟩ := h
  have hfound : items.mapM (readInt doc seen) = pure (ks.map fun k : Nat => some (k : Int)) := by
    induction hitems with
    | nil => rfl
    | cons hitem hitems ih =>
      rw [List.forall_mem_cons] at hks
      rw [List.mapM_cons, readInt_of_isNumber doc seen hks.1 hitem, pure_bind, ih hks.2, pure_bind,
        List.map_cons]
  rw [readInts, follow_sequence, pure_bind]
  dsimp only
  rw [hfound, pure_bind, List.filterMap_map]
  simp

theorem readSync_of_isText {cs : List Char} {n : Node} (h : Node.IsText (cs.map .char) n)
    {mode : SyncMode} (hmode : SyncMode.parse? (cs.map .char) = some mode) (old : SyncMode) :
    readSync doc seen old n = pure mode := by
  obtain ⟨tag, htag, line, rfl⟩ := isLeaf_of_isText h
  have hnull : tag ≠ Tag.null := by rcases htag with rfl | rfl <;> decide
  rw [readSync, follow_scalar, pure_bind]
  dsimp only
  rw [if_neg (show (Node.scalar line tag cs).tag ≠ Tag.null from hnull), hmode]

section Records

variable {α : Type} {shape : Shape α}

/-- What a field does to a record. -/
def Sets (shape : Shape α) (f : Field) (update : α → α) : Prop :=
  ∃ read, shape.field? (f.key.map .char) = some read ∧
    ∀ n, f.value n → ∀ seen a, read seen n a = pure (update a)

def inOrder (updates : List (α → α)) (a : α) : α := updates.foldl (fun a update => update a) a

theorem isMerge_of_isLeaf {text : List Char} {n : Node} (h : Node.IsLeaf Tag.str text n) :
    n.isMerge = false := by
  obtain ⟨line, rfl⟩ := h
  have : Tag.str ≠ Tag.merge := by decide
  simp [Node.isMerge, this]

theorem readFields_of_fits {fields : List Field} {updates : List (α → α)}
    (hsets : List.Forall₂ (Sets shape) fields updates) {pairs : List (Node × Node)}
    (hpairs : List.Forall₂ Field.Fits fields pairs) (hkeys : (fields.map Field.key).Nodup)
    {done : List Text} (hdone : ∀ f ∈ fields, f.key.map .char ∉ done) (a : α) :
    readFields doc shape seen pairs done none a =
      pure (inOrder updates a, none) := by
  induction hsets generalizing pairs done a with
  | nil =>
    cases hpairs
    rfl
  | @cons f update fields updates hset hsets ih =>
    obtain ⟨read, hfield, hread⟩ := hset
    cases hpairs with
    | @cons _ pair _ pairs hfits hpairs =>
      obtain ⟨key, value⟩ := pair
      obtain ⟨hkey, hvalue⟩ := hfits
      have htext := readText_of_string doc seen (.inl rfl) hkey
      have hmerge := isMerge_of_isLeaf hkey
      have hnew : done.contains (f.key.map Glyph.char) = false := by
        rw [List.contains_eq_mem, decide_eq_false (hdone f List.mem_cons_self)]
      rw [List.map_cons, List.nodup_cons] at hkeys
      have hrest : ∀ g ∈ fields, g.key.map Glyph.char ∉ f.key.map Glyph.char :: done := by
        intro g hg
        rw [List.mem_cons, not_or]
        refine ⟨fun he => hkeys.1 ?_, hdone g (List.mem_cons_of_mem _ hg)⟩
        have : g.key = f.key := List.map_injective_iff.mpr (fun _ _ h => Glyph.char.inj h) he
        rw [← this]
        exact List.mem_map_of_mem hg
      rw [readFields]
      simp only [hmerge, Bool.false_eq_true, if_false, htext, pure_bind, Option.getD_none,
        List.contains_nil, Option.map_none, hfield, hnew, hread value hvalue]
      exact ih hpairs hkeys.2 hrest _

theorem texts_of_fits {fields : List Field} {pairs : List (Node × Node)}
    (hpairs : List.Forall₂ Field.Fits fields pairs) :
    pairs.map (fun pair => pair.1.text) = fields.map Field.key := by
  induction hpairs with
  | nil => rfl
  | cons hfits hpairs ih =>
    obtain ⟨line, hkey⟩ := hfits.1
    rw [List.map_cons, List.map_cons, ih, hkey]
    rfl

theorem repeats_of_nodup {keys : List Node} (h : (keys.map Node.text).Nodup) :
    repeats keys = [] := by
  induction keys with
  | nil => rfl
  | cons key keys ih =>
    rw [List.map_cons, List.nodup_cons] at h
    have hothers : keys.filter
        (fun other => decide (other.kind = key.kind) && decide (other.text = key.text)) = [] := by
      rw [List.filter_eq_nil_iff]
      intro other hother hsame
      rw [Bool.and_eq_true, decide_eq_true_eq, decide_eq_true_eq] at hsame
      exact h.1 (hsame.2 ▸ List.mem_map_of_mem hother)
    rw [repeats, hothers, ih h.2]
    rfl

theorem mergeOf?_of_fits {fields : List Field} {pairs : List (Node × Node)}
    (hpairs : List.Forall₂ Field.Fits fields pairs) : mergeOf? pairs = none := by
  have hnone : pairs.filter (fun pair => pair.1.isMerge) = [] := by
    induction hpairs with
    | nil => rfl
    | cons hfits hpairs ih => rw [List.filter_cons_of_neg (by simp [isMerge_of_isLeaf hfits.1]), ih]
  rw [mergeOf?, hnone]
  rfl

theorem readRecord_of_isMapping {fields : List Field} {updates : List (α → α)}
    (hsets : List.Forall₂ (Sets shape) fields updates) (hkeys : (fields.map Field.key).Nodup)
    {n : Node} (hn : Node.IsMapping fields n) (fuel : Nat) (a : α) :
    readRecord doc shape (fuel + 1) seen none n a =
      pure (inOrder updates a, none) := by
  obtain ⟨line, pairs, rfl, hpairs⟩ := hn
  have hrepeats : repeats (pairs.map (·.1)) = [] := by
    apply repeats_of_nodup
    rw [List.map_map]
    exact texts_of_fits hpairs ▸ hkeys
  rw [readRecord, follow_mapping, pure_bind]
  dsimp only
  rw [hrepeats]
  dsimp only
  rw [readFields_of_fits doc seen hsets hpairs hkeys (fun _ _ => List.not_mem_nil), pure_bind]
  dsimp only
  rw [mergeOf?_of_fits hpairs]

end Records

end FlowPack.Settings
