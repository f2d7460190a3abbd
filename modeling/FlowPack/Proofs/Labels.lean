import FlowPack.Archive.Labels
import FlowPack.Proofs.Text.Utf8

namespace FlowPack.Archive.Labels

def tableValues (labels : Labels) (gate : Bool) : List Json :=
  values labels.document (.ofString (if gate then gateKey else gameKey))

def countOf (labels : Labels) (gate : Bool) : Nat :=
  if gate then labels.counts.2 else labels.counts.1

/-- The counted array of a table has the name at a number. -/
structure Lists (labels : Labels) (gate : Bool) (index : Int) (name : Text) : Prop where
  nonneg : 0 ≤ index
  lt : index < labels.countOf gate
  item : ∃ items rest, labels.tableValues gate = .array items :: rest ∧
    items[index.toNat]? = some (.string name)

/-- The number is past the counted array, and the name is what a later member with the same key
has there, be it an item of an array or a member of an object. -/
structure Strays (labels : Labels) (gate : Bool) (index : Int) (name : Text) : Prop where
  le : labels.countOf gate ≤ index
  later : ∃ first rest, labels.tableValues gate = first :: rest ∧
    rest.findSome? (itemAt? index.toNat) = some (.string name)

variable {labels : Labels} {gate : Bool} {index : Int} {name : Text}

theorem lookup?_eq_some_iff :
    labels.lookup? gate index = some name ↔
      0 ≤ index ∧ name ≠ [] ∧
        (labels.tableValues gate).findSome? (itemAt? index.toNat) = some (.string name) := by
  by_cases hneg : index < 0
  · simp [lookup?, hneg, Int.not_le.mpr hneg]
  · simp only [lookup?, tableValues, if_neg hneg, Int.not_lt.mp hneg, true_and]
    generalize List.findSome? _ _ = found
    -- Only a non-empty string among the values that can be found is a name.
    cases found with
    | none => simp
    | some v =>
      cases v with
      | string t => cases t <;> simp +contextual [eq_comm]
      | _ => simp

theorem tableValues_cases {t : Text} (h : parse t = .ok labels) (gate : Bool) :
    labels.tableValues gate = [] ∨
      ∃ items rest, labels.tableValues gate = .array items :: rest := by
  have hkey : ∀ {key}, checkKey labels.document key = .ok () →
      values labels.document (.ofString key) = [] ∨
        ∃ items rest, values labels.document (.ofString key) = .array items :: rest := by
    intro key hk
    unfold checkKey at hk
    split at hk
    · next hv => exact .inl hv
    · next hv => exact .inr ⟨_, _, hv⟩
    · cases hk
  unfold parse at h
  split at h
  · cases h
  · next document _ =>
    cases hgame : checkKey document gameKey with
    | error e => simp [hgame, bind, Except.bind] at h
    | ok _ =>
      cases hgate : checkKey document gateKey with
      | error e => simp [hgame, hgate, bind, Except.bind] at h
      | ok _ =>
        simp only [hgame, hgate, bind, Except.bind] at h
        obtain rfl := Except.ok.inj h
        cases gate with
        | false => exact hkey hgame
        | true => exact hkey hgate

theorem countOf_eq {items rest : List Json}
    (h : labels.tableValues gate = .array items :: rest) : labels.countOf gate = items.length := by
  cases gate <;> simp_all [tableValues, countOf, counts, count]

theorem findSome?_table_iff (hindex : 0 ≤ index) {items rest : List Json}
    (h : labels.tableValues gate = .array items :: rest) :
    (labels.tableValues gate).findSome? (itemAt? index.toNat) = some (.string name) ↔
      labels.Lists gate index name ∨ labels.Strays gate index name := by
  have hcount := countOf_eq h
  rw [h, List.findSome?_cons, itemAt?]
  by_cases hlt : index.toNat < items.length
  · have hsome : items[index.toNat]? = some items[index.toNat] := List.getElem?_eq_getElem hlt
    rw [hsome]
    constructor
    · intro hitem
      exact .inl ⟨hindex, by omega, items, rest, h, hsome.trans hitem⟩
    · rintro (⟨-, -, items', rest', h', hitem⟩ | ⟨hle, -⟩)
      · obtain ⟨⟨rfl⟩, -⟩ := List.cons.inj (h.symm.trans h')
        exact hsome.symm.trans hitem
      · omega
  · rw [List.getElem?_eq_none (Nat.le_of_not_lt hlt)]
    constructor
    · intro hlater
      exact .inr ⟨by omega, _, rest, h, hlater⟩
    · rintro (⟨-, hin, -⟩ | ⟨-, first, rest', h', hlater⟩)
      · omega
      · obtain ⟨-, rfl⟩ := List.cons.inj (h.symm.trans h')
        exact hlater

/-- In a document that was accepted, a name that is found is an item of the counted array or strays
from it; and it cannot stray unless the key of its table is repeated. -/
theorem found_names_are_counted {data : Bytes} {labels : Labels}
    (h : parse (.ofBytes data) = .ok labels) (gate : Bool) (index : Int) (name : Text) :
    (labels.lookup? gate index = some name ↔
        name ≠ [] ∧ (labels.Lists gate index name ∨ labels.Strays gate index name)) ∧
      ((labels.tableValues gate).length ≤ 1 → labels.lookup? gate index = some name →
        labels.Lists gate index name) := by
  have hiff : labels.lookup? gate index = some name ↔
      name ≠ [] ∧ (labels.Lists gate index name ∨ labels.Strays gate index name) := by
    rw [lookup?_eq_some_iff]
    rcases tableValues_cases h gate with hnone | ⟨items, rest, hvalues⟩
    · constructor
      · rintro ⟨-, -, hfound⟩
        rw [hnone] at hfound
        cases hfound
      · rintro ⟨-, ⟨-, -, items, rest, hvalues, -⟩ | ⟨-, first, rest, hvalues, -⟩⟩
        all_goals
          rw [hnone] at hvalues
          cases hvalues
    · constructor
      · rintro ⟨hindex, hne, hfound⟩
        exact ⟨hne, (findSome?_table_iff hindex hvalues).mp hfound⟩
      · rintro ⟨hne, hplace⟩
        have hindex : 0 ≤ index := by
          rcases hplace with hlists | hstrays
          · exact hlists.nonneg
          · exact Int.le_trans (Int.natCast_nonneg _) hstrays.le
        exact ⟨hindex, hne, (findSome?_table_iff hindex hvalues).mpr hplace⟩
  refine ⟨hiff, ?_⟩
  intro honce hfound
  rcases (hiff.mp hfound).2 with hlists | ⟨-, first, rest, hvalues, hlater⟩
  · exact hlists
  · rw [hvalues, List.length_cons] at honce
    obtain rfl : rest = [] := List.length_eq_zero_iff.mp (by omega)
    cases hlater

def sampleNames : Text :=
  .ofString "\x7b\"tickflowEndless\":[\"x\",\"y\"],\"note\":1,\"tickflow\":[\"z\"]\x7d"

def sampleLabels : Labels :=
  ⟨.obj [("tickflowEndless", .array [.str "x", .str "y"]), ("note", .nat 1),
    ("tickflow", .array [.str "z"])]⟩

theorem found_names_are_counted_sample :
    parse (.ofBytes sampleNames.bytes) = .ok sampleLabels ∧
      sampleLabels.lookup? true 1 = some (.ofString "y") ∧
      sampleLabels.Lists true 1 (.ofString "y") := by
  have hbytes : Text.ofBytes sampleNames.bytes = sampleNames := Text.ofBytes_bytes_map _
  have hparse : parse sampleNames = .ok sampleLabels := by cbv
  have hfound : sampleLabels.lookup? true 1 = some (.ofString "y") := by cbv
  rw [← hbytes] at hparse
  exact ⟨hparse, hfound,
    (found_names_are_counted hparse true 1 (.ofString "y")).2 (by decide) hfound⟩

/-- Two members with the key of the games: the second has a name past the end of the first. -/
def twiceListed : Text := .ofString "\x7b\"tickflow\":[\"a\"],\"tickflow\":[\"b\",\"c\"]\x7d"

def listedInObject : Text :=
  .ofString "\x7b\"tickflowEndless\":[],\"tickflowEndless\":\x7b\"3\":\"d\"\x7d\x7d"

theorem repeated_key_escapes_count :
    (∃ labels, parse (.ofBytes twiceListed.bytes) = .ok labels ∧
        labels.lookup? false 1 = some (.ofString "c") ∧ labels.countOf false = 1) ∧
      ∃ labels, parse (.ofBytes listedInObject.bytes) = .ok labels ∧
        labels.lookup? true 3 = some (.ofString "d") ∧ labels.countOf true = 0 ∧
        labels.tableValues true = [.array [], .obj [("3", .str "d")]] := by
  have hfirst : Text.ofBytes twiceListed.bytes = twiceListed := Text.ofBytes_bytes_map _
  have hsecond : Text.ofBytes listedInObject.bytes = listedInObject := Text.ofBytes_bytes_map _
  have hparse : parse twiceListed =
      .ok ⟨.obj [("tickflow", .array [.str "a"]), ("tickflow", .array [.str "b", .str "c"])]⟩ := by
    cbv
  have hparse' : parse listedInObject =
      .ok ⟨.obj [("tickflowEndless", .array []), ("tickflowEndless", .obj [("3", .str "d")])]⟩ := by
    cbv
  rw [hfirst, hsecond]
  exact ⟨⟨_, hparse, by cbv, rfl⟩, _, hparse', by cbv, rfl, rfl⟩

end FlowPack.Archive.Labels
