import FlowPack.Proofs.Yaml.Fields
import FlowPack.Yaml.Node.Grammar

namespace FlowPack.Yaml

open Grammar (standardHandles node blockEntries blockPairs)

def Node.IsLeaf (tag : Tag) (text : List Char) (n : Node) : Prop :=
  ∃ line, n = .scalar line tag text

def Node.IsSequence {α : Type} (p : α → Node → Prop) (xs : List α) (n : Node) : Prop :=
  ∃ line items, n = .sequence line .seq items ∧ List.Forall₂ p xs items

theorem node_scalar (fuel : Nat) (block flush isPlain : Bool) (text : List Char) (line : Nat)
    (rest : List Token) (a : Anchors) :
    node standardHandles (fuel + 1) block flush (⟨.scalar isPlain text, line⟩ :: rest) a =
      some (Grammar.scalarNode line [] isPlain text, rest, a) := by
  cases flush <;> rfl

theorem node_binary (fuel : Nat) (block flush isPlain : Bool) (text : List Char) (line line' : Nat)
    (rest : List Token) (a : Anchors) :
    node standardHandles (fuel + 1) block flush
        (⟨.tag Lexer.binaryTag, line⟩ :: ⟨.scalar isPlain text, line'⟩ :: rest) a =
      some (.scalar (line + 1) Tag.binary text, rest, a) := by
  have hfull : Grammar.fullTag? standardHandles (some Lexer.binaryTag) =
      some (Tag.standardStem ++ .ofString "binary") := by decide
  have htag : Grammar.tagOr (Grammar.defaultTag isPlain text)
      (Tag.standardStem ++ .ofString "binary") = Tag.binary := by
    rw [Grammar.tagOr, if_neg (by decide)]
    decide
  have hnode : node standardHandles (fuel + 1) block flush
      (⟨.tag Lexer.binaryTag, line⟩ :: ⟨.scalar isPlain text, line'⟩ :: rest) a =
        some (Grammar.scalarNode line (Tag.standardStem ++ .ofString "binary") isPlain text, rest,
          a) := by
    cases flush <;> rfl
  rw [hnode, Grammar.scalarNode, htag]

theorem node_emptyList (fuel : Nat) (block flush : Bool) (line line' : Nat) (rest : List Token)
    (a : Anchors) :
    node standardHandles (fuel + 2) block flush
        (⟨.openList, line⟩ :: ⟨.closeList, line'⟩ :: rest) a =
      some (.sequence (line + 1) .seq [], rest, a) := by
  cases flush <;> rfl

theorem node_blockSequence (fuel : Nat) (flush : Bool) (line : Nat) (ts : List Token)
    (a : Anchors) :
    node standardHandles (fuel + 1) true flush (⟨.blockSequence, line⟩ :: ts) a =
      (blockEntries standardHandles fuel ts a).map fun (items, ts, a) =>
        (.sequence (line + 1) .seq items, ts, a) := by
  cases flush <;> rfl

theorem node_blockMapping (fuel : Nat) (flush : Bool) (line : Nat) (ts : List Token) (a : Anchors) :
    node standardHandles (fuel + 1) true flush (⟨.blockMapping, line⟩ :: ts) a =
      (blockPairs standardHandles fuel ts a).map fun (pairs, ts, a) =>
        (.mapping (line + 1) .map pairs, ts, a) := by
  cases flush <;> rfl

theorem map_kind_eq_cons {ts : List Token} {kind : TokenKind} {kinds : List TokenKind}
    (h : ts.map (·.kind) = kind :: kinds) :
    ∃ line ts', ts = ⟨kind, line⟩ :: ts' ∧ ts'.map (·.kind) = kinds := by
  obtain ⟨⟨k, line⟩, ts', rfl, rfl, ht⟩ := List.map_eq_cons_iff.mp h
  exact ⟨line, ts', rfl, ht⟩

/-- Tokens of these kinds are read as a node with a property, wherever a value may stand. -/
structure Forms (kinds : List TokenKind) (p : Node → Prop) : Prop where
  head : ∃ kind ∈ kinds.head?, kind ∉ [.key, .value, .blockEnd, .entry]
  parses : ∀ ts : List Token, ts.map (·.kind) = kinds → ∃ n, p n ∧
    ∀ fuel flush rest a, kinds.length < fuel →
      node standardHandles fuel true flush (ts ++ rest) a = some (n, rest, a)

namespace Forms

theorem scalar (isPlain : Bool) (text : List Char) :
    Forms [.scalar isPlain text] (Node.IsLeaf (Grammar.defaultTag isPlain text) text) := by
  refine ⟨⟨_, rfl, by simp⟩, fun ts hts => ?_⟩
  obtain ⟨line, ts, rfl, hnil⟩ := map_kind_eq_cons hts
  obtain rfl := List.map_eq_nil_iff.mp hnil
  refine ⟨_, ⟨line + 1, rfl⟩, fun fuel flush rest a hfuel => ?_⟩
  obtain ⟨fuel, rfl⟩ := Nat.exists_eq_add_one_of_ne_zero (Nat.ne_zero_of_lt hfuel)
  exact node_scalar fuel true flush isPlain text line rest a

theorem binary (isPlain : Bool) (text : List Char) :
    Forms [.tag Lexer.binaryTag, .scalar isPlain text] (Node.IsLeaf Tag.binary text) := by
  refine ⟨⟨_, rfl, by simp⟩, fun ts hts => ?_⟩
  obtain ⟨line, ts, rfl, htail⟩ := map_kind_eq_cons hts
  obtain ⟨line', ts, rfl, hnil⟩ := map_kind_eq_cons htail
  obtain rfl := List.map_eq_nil_iff.mp hnil
  refine ⟨_, ⟨line + 1, rfl⟩, fun fuel flush rest a hfuel => ?_⟩
  obtain ⟨fuel, rfl⟩ := Nat.exists_eq_add_one_of_ne_zero (Nat.ne_zero_of_lt hfuel)
  exact node_binary fuel true flush isPlain text line line' rest a

theorem nextIn_eq_false {kinds bare : List TokenKind} {p : Node → Prop} (h : Forms kinds p)
    {ts : List Token} (hts : ts.map (·.kind) = kinds)
    (hbare : bare ⊆ [.key, .value, .blockEnd, .entry]) (rest : List Token) :
    Grammar.nextIn bare (ts ++ rest) = false := by
  obtain ⟨kind, hkind, hnot⟩ := h.head
  obtain ⟨kinds, rfl⟩ := List.head?_eq_some_iff.mp hkind
  obtain ⟨line, ts, rfl, -⟩ := map_kind_eq_cons hts
  have hcontains : bare.contains kind = false := by
    rw [List.contains_eq_mem, decide_eq_false fun hin => hnot (hbare hin)]
  exact hcontains

end Forms

theorem blockEntries_entry {fuel line : Nat} {ts ts' rest : List Token} {a : Anchors} {n : Node}
    {ns : List Node} (hnext : Grammar.nextIn [.entry, .blockEnd] ts = false)
    (hnode : node standardHandles fuel true false ts a = some (n, ts', a))
    (hentries : blockEntries standardHandles fuel ts' a = some (ns, rest, a)) :
    blockEntries standardHandles (fuel + 1) (⟨.entry, line⟩ :: ts) a = some (n :: ns, rest, a) := by
  simp [blockEntries, hnext, hnode, hentries]

theorem blockEntries_spec {α : Type} {kindsOf : α → List TokenKind} {p : α → Node → Prop}
    (h : ∀ x, Forms (kindsOf x) (p x)) (xs : List α) {ts : List Token}
    (hts : ts.map (·.kind) = xs.flatMap (fun x => .entry :: kindsOf x) ++ [.blockEnd]) :
    ∃ ns, List.Forall₂ p xs ns ∧ ∀ fuel rest a, ts.length < fuel →
      blockEntries standardHandles fuel (ts ++ rest) a = some (ns, rest, a) := by
  induction xs generalizing ts with
  | nil =>
    obtain ⟨line, ts, rfl, hnil⟩ := map_kind_eq_cons hts
    obtain rfl := List.map_eq_nil_iff.mp hnil
    refine ⟨[], .nil, fun fuel rest a hfuel => ?_⟩
    obtain ⟨fuel, rfl⟩ := Nat.exists_eq_add_one_of_ne_zero (Nat.ne_zero_of_lt hfuel)
    rfl
  | cons x xs ih =>
    rw [List.flatMap_cons, List.append_assoc] at hts
    obtain ⟨line, ts, rfl, htail⟩ := map_kind_eq_cons hts
    obtain ⟨item, others, rfl, hitem, hothers⟩ := List.map_eq_append_iff.mp htail
    obtain ⟨n, hn, hnode⟩ := (h x).parses item hitem
    obtain ⟨ns, hns, hentries⟩ := ih hothers
    refine ⟨n :: ns, .cons hn hns, fun fuel rest a hfuel => ?_⟩
    obtain ⟨fuel, rfl⟩ := Nat.exists_eq_add_one_of_ne_zero (Nat.ne_zero_of_lt hfuel)
    rw [List.length_cons, List.length_append] at hfuel
    have hlen : (kindsOf x).length = item.length := by rw [← hitem, List.length_map]
    rw [List.cons_append, List.append_assoc]
    exact blockEntries_entry ((h x).nextIn_eq_false hitem (by simp) _)
      (hnode fuel false _ a (by omega)) (hentries fuel rest a (by omega))

theorem Forms.sequence {α : Type} {kindsOf : α → List TokenKind} {p : α → Node → Prop}
    (h : ∀ x, Forms (kindsOf x) (p x)) (xs : List α) :
    Forms (.blockSequence :: xs.flatMap (fun x => .entry :: kindsOf x) ++ [.blockEnd])
      (Node.IsSequence p xs) := by
  refine ⟨⟨_, rfl, by simp⟩, fun ts hts => ?_⟩
  obtain ⟨line, ts, rfl, htail⟩ := map_kind_eq_cons hts
  obtain ⟨ns, hns, hentries⟩ := blockEntries_spec h xs htail
  refine ⟨_, ⟨line + 1, ns, rfl, hns⟩, fun fuel flush rest a hfuel => ?_⟩
  obtain ⟨fuel, rfl⟩ := Nat.exists_eq_add_one_of_ne_zero (Nat.ne_zero_of_lt hfuel)
  have hlen := congrArg List.length hts
  rw [List.length_map, List.length_cons] at hlen
  rw [List.cons_append, node_blockSequence, hentries fuel rest a (by omega)]
  rfl

theorem Forms.emptyList {α : Type} (p : α → Node → Prop) :
    Forms [.openList, .closeList] (Node.IsSequence p []) := by
  refine ⟨⟨_, rfl, by simp⟩, fun ts hts => ?_⟩
  obtain ⟨line, ts, rfl, htail⟩ := map_kind_eq_cons hts
  obtain ⟨line', ts, rfl, hnil⟩ := map_kind_eq_cons htail
  obtain rfl := List.map_eq_nil_iff.mp hnil
  refine ⟨_, ⟨line + 1, [], rfl, .nil⟩, fun fuel flush rest a hfuel => ?_⟩
  obtain ⟨fuel, rfl⟩ := Nat.exists_eq_add_of_le' (show 2 ≤ fuel from Nat.le_of_lt hfuel)
  exact node_emptyList fuel true flush line line' rest a

/-- A key and what its value is like. -/
structure Field where
  key : List Char
  value : Node → Prop

def Field.Fits (f : Field) (pair : Node × Node) : Prop :=
  Node.IsLeaf Tag.str f.key pair.1 ∧ f.value pair.2

/-- Tokens of these kinds are read as the next fields of a mapping. -/
def FormsFields (kinds : List TokenKind) (fields : List Field) : Prop :=
  ∀ ts : List Token, ts.map (·.kind) = kinds → ∃ pairs, List.Forall₂ Field.Fits fields pairs ∧
    ∀ ⦃more : List Token⦄ ⦃a others rest enough⦄,
      (∀ fuel, enough ≤ fuel → blockPairs standardHandles fuel more a = some (others, rest, a)) →
      ∀ fuel, enough + kinds.length ≤ fuel →
        blockPairs standardHandles fuel (ts ++ more) a = some (pairs ++ others, rest, a)

theorem FormsFields.append {kinds₁ kinds₂ : List TokenKind} {fields₁ fields₂ : List Field}
    (h₁ : FormsFields kinds₁ fields₁) (h₂ : FormsFields kinds₂ fields₂) :
    FormsFields (kinds₁ ++ kinds₂) (fields₁ ++ fields₂) := by
  intro ts hts
  obtain ⟨ts₁, ts₂, rfl, hts₁, hts₂⟩ := List.map_eq_append_iff.mp hts
  obtain ⟨pairs₁, hpairs₁, h₁⟩ := h₁ ts₁ hts₁
  obtain ⟨pairs₂, hpairs₂, h₂⟩ := h₂ ts₂ hts₂
  refine ⟨pairs₁ ++ pairs₂, List.rel_append hpairs₁ hpairs₂, fun more a others rest enough h => ?_⟩
  intro fuel hfuel
  rw [List.length_append] at hfuel
  rw [List.append_assoc, List.append_assoc]
  exact h₁ (h₂ h) fuel (by omega)

theorem blockPairs_pair {fuel line₁ line₂ line₃ : Nat} {key : List Char} {ts ts' rest : List Token}
    {a : Anchors} {v : Node} {pairs : List (Node × Node)}
    (hnext : Grammar.nextIn [.key, .value, .blockEnd] ts = false)
    (hnode : node standardHandles (fuel + 1) true true ts a = some (v, ts', a))
    (hpairs : blockPairs standardHandles (fuel + 1) ts' a = some (pairs, rest, a)) :
    blockPairs standardHandles (fuel + 1 + 1)
        (⟨.key, line₁⟩ :: ⟨.scalar true key, line₂⟩ :: ⟨.value, line₃⟩ :: ts) a =
      some ((Grammar.scalarNode line₂ [] true key, v) :: pairs, rest, a) := by
  have hkey : Grammar.nextIn [.key, .value, .blockEnd]
      (⟨.scalar true key, line₂⟩ :: ⟨.value, line₃⟩ :: ts) = false := rfl
  have hscalar := node_scalar fuel true true true key line₂ (⟨.value, line₃⟩ :: ts) a
  generalize fuel + 1 = fuel at *
  simp [blockPairs, hkey, hscalar, hnext, hnode, hpairs]

theorem FormsFields.single {key : List Char} {kinds : List TokenKind} {p : Node → Prop}
    (hkey : Grammar.defaultTag true key = Tag.str) (h : Forms kinds p) :
    FormsFields (Lexer.keyKinds key ++ kinds) [⟨key, p⟩] := by
  intro ts hts
  obtain ⟨line₁, ts, rfl, hts₁⟩ := map_kind_eq_cons hts
  obtain ⟨line₂, ts, rfl, hts₂⟩ := map_kind_eq_cons hts₁
  obtain ⟨line₃, ts, rfl, hvalue⟩ := map_kind_eq_cons hts₂
  obtain ⟨v, hv, hnode⟩ := h.parses ts hvalue
  have hleaf : Node.IsLeaf Tag.str key (Grammar.scalarNode line₂ [] true key) := by
    rw [← hkey]
    exact ⟨line₂ + 1, rfl⟩
  refine ⟨[(_, v)], .cons ⟨hleaf, hv⟩ .nil, fun more a others rest enough hmore fuel hfuel => ?_⟩
  simp only [Lexer.keyKinds, List.length_append, List.length_cons, List.length_nil] at hfuel
  obtain ⟨fuel, rfl⟩ := Nat.exists_eq_add_of_le' (show 2 ≤ fuel by omega)
  exact blockPairs_pair (h.nextIn_eq_false hvalue (by simp) more)
    (hnode (fuel + 1) true more a (by omega)) (hmore (fuel + 1) (by omega))

def Node.IsMapping (fields : List Field) (n : Node) : Prop :=
  ∃ line pairs, n = .mapping line .map pairs ∧ List.Forall₂ Field.Fits fields pairs

theorem Forms.mapping {kinds : List TokenKind} {fields : List Field}
    (h : FormsFields kinds fields) :
    Forms (.blockMapping :: kinds ++ [.blockEnd]) (Node.IsMapping fields) := by
  refine ⟨⟨_, rfl, by simp⟩, fun ts hts => ?_⟩
  obtain ⟨line, ts, rfl, htail⟩ := map_kind_eq_cons hts
  obtain ⟨ts, last, rfl, hfields, hlast⟩ := List.map_eq_append_iff.mp htail
  obtain ⟨line', last, rfl, hnil⟩ := map_kind_eq_cons hlast
  obtain rfl := List.map_eq_nil_iff.mp hnil
  obtain ⟨pairs, hpairs, hparses⟩ := h ts hfields
  refine ⟨_, ⟨line + 1, pairs, rfl, hpairs⟩, fun fuel flush rest a hfuel => ?_⟩
  obtain ⟨fuel, rfl⟩ := Nat.exists_eq_add_one_of_ne_zero (Nat.ne_zero_of_lt hfuel)
  have hend : ∀ fuel, 1 ≤ fuel →
      blockPairs standardHandles fuel (⟨.blockEnd, line'⟩ :: rest) a = some ([], rest, a) := by
    intro fuel hfuel
    obtain ⟨fuel, rfl⟩ := Nat.exists_eq_add_of_le' hfuel
    rfl
  simp only [List.length_append, List.length_cons, List.length_nil] at hfuel
  have hall := hparses hend fuel (by omega)
  rw [List.append_nil] at hall
  rw [List.cons_append, List.append_assoc, List.singleton_append, node_blockMapping, hall]
  rfl

/-- Lines that are read as fields of a mapping that is indented by `w`. -/
def Spells (w : Nat) (lines : List Char) (fields : List Field) : Prop :=
  ∃ kinds, Lexer.Carries w lines kinds ∧ FormsFields kinds fields

def IsName (key : List Char) : Prop :=
  Plain.IsKey key ∧ key.length ≤ keyReach ∧ Grammar.defaultTag true key = Tag.str

instance (key : List Char) : Decidable (IsName key) := inferInstanceAs (Decidable (_ ∧ _ ∧ _))

def Node.IsNumber (n : Nat) : Node → Prop :=
  Node.IsLeaf (Grammar.defaultTag true (Nat.toDigits 10 n)) (Nat.toDigits 10 n)

def Node.IsText (t : Text) : Node → Prop :=
  match Printer.chars? t with
  | some cs => Node.IsLeaf
      (Grammar.defaultTag (Printer.writesPlain (Printer.readsAsString cs) cs) cs) cs
  | none => Node.IsLeaf Tag.binary (Printer.base64Lines t.bytes)

theorem Forms.text (t : Text) : Forms (Printer.textKinds t) (Node.IsText t) := by
  unfold Printer.textKinds Node.IsText
  cases Printer.chars? t with
  | some cs => exact .scalar _ cs
  | none => exact .binary _ _

namespace Spells

open Printer (margin)

theorem append {w : Nat} {lines₁ lines₂ : List Char} {fields₁ fields₂ : List Field}
    (h₁ : Spells w lines₁ fields₁) (h₂ : Spells w lines₂ fields₂) :
    Spells w (lines₁ ++ lines₂) (fields₁ ++ fields₂) := by
  obtain ⟨kinds₁, hlines₁, hfields₁⟩ := h₁
  obtain ⟨kinds₂, hlines₂, hfields₂⟩ := h₂
  exact ⟨kinds₁ ++ kinds₂, hlines₁.append hlines₂, hfields₁.append hfields₂⟩

variable {w : Nat} {key : List Char} (hkey : IsName key)

include hkey

theorem text {t : Text} (ht : Printer.Kept t) :
    Spells w (margin w ++ key ++ [':', ' '] ++ Printer.text (w + 4) t) [⟨key, Node.IsText t⟩] :=
  ⟨_, Lexer.carries_text hkey.1 hkey.2.1 ht, .single hkey.2.2 (.text t)⟩

theorem number (n : Nat) :
    Spells w (margin w ++ key ++ [':', ' '] ++ (Nat.toDigits 10 n ++ ['\n']))
      [⟨key, Node.IsNumber n⟩] :=
  ⟨_, Lexer.carries_number hkey.1 hkey.2.1 n, .single hkey.2.2 (.scalar true _)⟩

theorem emptyList :
    Spells w (margin w ++ key ++ [':', ' '] ++ "[]\n".toList)
      [⟨key, Node.IsSequence Node.IsNumber []⟩] :=
  ⟨_, Lexer.carries_emptyList hkey.1 hkey.2.1, .single hkey.2.2 (.emptyList _)⟩

theorem numbers (n : Nat) (ns : List Nat) :
    Spells w (margin w ++ key ++ [':', '\n'] ++
        (n :: ns).flatMap fun n => margin (w + 4) ++ Lexer.itemLine n)
      [⟨key, Node.IsSequence Node.IsNumber (n :: ns)⟩] :=
  ⟨_, Lexer.carries_numbers hkey.1 hkey.2.1 n ns,
    .single hkey.2.2 (.sequence (fun _ => .scalar true _) (n :: ns))⟩

theorem mapping {lines : List Char} {fields : List Field} (h : Spells (w + 4) lines fields) :
    Spells w (margin w ++ key ++ [':', '\n'] ++ lines) [⟨key, Node.IsMapping fields⟩] := by
  obtain ⟨kinds, hlines, hfields⟩ := h
  exact ⟨_, Lexer.carries_section hkey.1 hkey.2.1 hlines, .single hkey.2.2 (.mapping hfields)⟩

omit hkey in
/-- A document of fields is read as a mapping. -/
theorem parse? {lines : List Char} {fields : List Field} (h : Spells 0 lines fields) :
    ∃ root, Node.IsMapping fields root ∧
      Document.parse? lines = some (some { root, anchored := [] }) := by
  obtain ⟨kinds, hlines, hfields⟩ := h
  obtain ⟨ts, hts, hread⟩ := Lexer.read_of_carries hlines
  have hsplit : TokenKind.blockMapping :: kinds ++ [.blockEnd, .streamEnd] =
      .blockMapping :: kinds ++ [.blockEnd] ++ [.streamEnd] := by simp
  rw [hsplit] at hts
  obtain ⟨ts, last, rfl, hmapping, hlast⟩ := List.map_eq_append_iff.mp hts
  obtain ⟨root, hroot, hnode⟩ := (Forms.mapping hfields).parses ts hmapping
  obtain ⟨line, others, hfirst, -⟩ := map_kind_eq_cons (List.cons_append ▸ hmapping)
  have hlen : (.blockMapping :: kinds ++ [.blockEnd] : List TokenKind).length = ts.length := by
    rw [← hmapping, List.length_map]
  have hdocument : Grammar.root (ts ++ last) = some (some (root, last, {})) := by
    have hn := hnode (2 * (ts ++ last).length + 2) false last {} (by
      rw [hlen, List.length_append]
      omega)
    have hnext : Grammar.nextKind? (ts ++ last) = some .blockMapping := by
      rw [hfirst]
      rfl
    rw [Grammar.root, hnext, hn]
    rfl
  refine ⟨root, hroot, ?_⟩
  unfold Document.parse?
  rw [hread]
  simp only [hdocument, Bool.true_or, if_true]

end Spells

end FlowPack.Yaml
