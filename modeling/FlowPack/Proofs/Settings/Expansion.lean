import FlowPack.Settings.Environment
import FlowPack.Settings.Printer
import FlowPack.Proofs.Text.Base64
import FlowPack.Proofs.Yaml.Spelling

namespace FlowPack

namespace Environment

def opensName (c : Char) : Bool :=
  "\x7b*#$@!?-_".toList.contains c || ('0' ≤ c && c ≤ '9') || ('a' ≤ c && c ≤ 'z') ||
    ('A' ≤ c && c ≤ 'Z')

/-- No dollar sign of the text begins a reference. -/
def Inert (cs : List Char) : Prop := cs.IsChain fun a b => a = '$' → opensName b = false

instance (cs : List Char) : Decidable (Inert cs) :=
  inferInstanceAs (Decidable (cs.IsChain _))

theorem opensName_iff {c : Char} :
    opensName c = true ↔ c ∈ "\x7b*#$@!?-_".toList ∨ (48 ≤ c.toNat ∧ c.toNat ≤ 57) ∨
      (97 ≤ c.toNat ∧ c.toNat ≤ 122) ∨ (65 ≤ c.toNat ∧ c.toNat ≤ 90) := by
  simp only [opensName, List.contains_eq_mem, Bool.or_eq_true, Bool.and_eq_true, decide_eq_true_eq,
    char_le_iff, or_assoc]
  rfl

theorem opensName_of_isSign {b : UInt8} (h : isSign b = true) :
    ∃ c : Char, c.toNat = b.toNat ∧ opensName c = true := by
  obtain ⟨c, hc, hb⟩ := List.any_eq_true.mp h
  have hall : ∀ c ∈ "*#$@!?-0123456789".toList, opensName c = true :=
    List.all_eq_true.mp (by decide)
  exact ⟨c, eq_of_beq hb, hall c hc⟩

theorem opensName_of_isNameByte {b : UInt8} (h : isNameByte b = true) :
    ∃ c : Char, c.toNat = b.toNat ∧ opensName c = true := by
  simp only [isNameByte, Bool.or_eq_true, Bool.and_eq_true, decide_eq_true_eq, beq_iff_eq,
    UInt8.le_iff_toNat_le, ← UInt8.toNat_inj] at h
  simp only [UInt8.reduceToNat] at h
  have hv : (Char.ofUInt8 b).toNat = b.toNat := UInt8.toNat_toUInt32 b
  refine ⟨Char.ofUInt8 b, hv, opensName_iff.mpr ?_⟩
  rw [hv]
  rcases h with ((h | h) | h) | h
  · have hlow : Char.ofUInt8 b = '_' := Char.toNat_inj.mp (hv.trans h)
    exact .inl (by rw [hlow]; decide)
  · exact .inr (.inl h)
  · exact .inr (.inr (.inl h))
  · exact .inr (.inr (.inr h))

theorem reference_eq_none {b : UInt8} (h : ∀ c : Char, c.toNat = b.toNat → opensName c = false)
    (rest : Bytes) : reference (b :: rest) = .none := by
  have hopens : ¬ ∃ c : Char, c.toNat = b.toNat ∧ opensName c = true := by
    rintro ⟨c, hc, ho⟩
    exact absurd ho (by simp [h c hc])
  have hbrace : b ≠ openBrace := by
    rintro rfl
    exact hopens ⟨'\x7b', by decide, by decide⟩
  have hsign := mt opensName_of_isSign hopens
  have hname := mt opensName_of_isNameByte hopens
  simp [reference, hbrace, hsign, hname]

theorem reference_encode {c : Char} (h : opensName c = false) (rest : Bytes) :
    reference (Utf8.encode c ++ rest) = .none := by
  rcases Utf8.encode_cases c with ⟨hc, he⟩ | ⟨-, hall⟩
  · rw [he]
    refine reference_eq_none (fun d hd => ?_) rest
    rw [Utf8.toNat_toUInt8 (by omega)] at hd
    rwa [Char.toNat_inj.mp hd]
  · have hpos := Utf8.length_encode_pos c
    cases he : Utf8.encode c with
    | nil => simp [he] at hpos
    | cons b tail =>
      refine reference_eq_none (fun d hd => ?_) (tail ++ rest)
      have hb : 0x80 ≤ b.toNat := hall b (by simp [he])
      have hfar : ¬ opensName d = true := by
        rw [opensName_iff]
        have hlist : ∀ x ∈ "\x7b*#$@!?-_".toList, decide (x.toNat < 0x80) = true :=
          List.all_eq_true.mp (by decide)
        rintro (hm | hr)
        · have := of_decide_eq_true (hlist d hm)
          omega
        · omega
      simpa using hfar

theorem encode_dollar : Utf8.encode '$' = [dollar] := by decide

theorem dollar_not_mem_encode {c : Char} (h : c ≠ '$') : dollar ∉ Utf8.encode c := by
  rcases Utf8.encode_cases c with ⟨hc, he⟩ | ⟨-, hall⟩
  · rw [he, List.mem_singleton]
    intro hd
    apply h
    rw [← Char.toNat_inj, ← Utf8.toNat_toUInt8 (show c.toNat < 256 by omega), ← hd]
    rfl
  · exact fun hd => absurd (hall _ hd) (by decide)

theorem expandFrom_append {env : Environment} {bs rest : Bytes} (h : dollar ∉ bs) :
    expandFrom env 0 (bs ++ rest) = bs ++ expandFrom env 0 rest := by
  induction bs with
  | nil => rfl
  | cons b bs ih =>
    rw [List.mem_cons, not_or] at h
    rw [List.cons_append, expandFrom, if_neg (by simpa using Ne.symm h.1), ih h.2]
    rfl

theorem expandFrom_inert (env : Environment) {cs : List Char} (h : Inert cs) :
    expandFrom env 0 (Text.bytes (cs.map .char)) = Text.bytes (cs.map .char) := by
  induction cs with
  | nil => rfl
  | cons c cs ih =>
    have htail := ih (List.IsChain.of_cons h)
    rw [List.map_cons, Text.bytes, List.flatMap_cons, ← Text.bytes, Glyph.bytes]
    by_cases hc : c = '$'
    · have href : reference (Text.bytes (cs.map .char)) = .none := by
        cases cs with
        | nil => rfl
        | cons d cs => exact reference_encode ((List.isChain_cons_cons.mp h).1 hc) _
      rw [hc, encode_dollar, List.singleton_append, expandFrom, if_pos (beq_self_eq_true _), href,
        htail]
    · rw [expandFrom_append (dollar_not_mem_encode hc), htail]

theorem expand_inert (env : Environment) {cs : List Char} (h : Inert cs) :
    env.expand (Text.bytes (cs.map .char)) = Text.bytes (cs.map .char) :=
  expandFrom_inert env h

theorem inert_of_not_mem {cs : List Char} (h : '$' ∉ cs) : Inert cs := by
  induction cs with
  | nil => exact .nil
  | cons c cs ih =>
    rw [List.mem_cons, not_or] at h
    exact List.isChain_cons.mpr ⟨fun _ _ hc => absurd hc.symm h.1, ih h.2⟩

/-- What `out` begins with cannot make a reference out of a dollar sign, unless `rest` begins
with it as well. -/
def Echoes (out rest : List Char) : Prop :=
  ∀ y ∈ out.head?, opensName y = true → y ∈ rest.head?

theorem Inert.written {c : Char} {rest run out : List Char} (h : Inert (c :: rest))
    (hrun : Inert run) (hlast : ∀ x ∈ run.getLast?, x = '$' → c = '$') (hout : Inert out)
    (hecho : Echoes out rest) : Inert (run ++ out) := by
  refine List.isChain_append.mpr ⟨hrun, hout, fun x hx y hy hd => ?_⟩
  cases ho : opensName y with
  | false => rfl
  | true =>
    have hr := (List.isChain_cons.mp h).1 y (hecho y hy ho) (hlast x hx hd)
    rw [ho] at hr
    cases hr

/-- A text that nothing after it can turn into one with a reference. -/
structure Sealed (cs : List Char) : Prop where
  inert : Inert cs
  last : ∀ x ∈ cs.getLast?, x ≠ '$'

namespace Sealed

variable {cs ds : List Char}

theorem of_not_mem (h : '$' ∉ cs) : Sealed cs where
  inert := inert_of_not_mem h
  last _ hx hd := h (hd ▸ List.mem_of_getLast? hx)

theorem append (hc : Sealed cs) (hd : Sealed ds) : Sealed (cs ++ ds) where
  inert := List.isChain_append.mpr
    ⟨hc.inert, hd.inert, fun x hx _ _ hdollar => absurd hdollar (hc.last x hx)⟩
  last x hx := by
    rw [List.getLast?_append, Option.mem_def, Option.or_eq_some_iff] at hx
    rcases hx with hx | ⟨-, hx⟩
    · exact hd.last x hx
    · exact hc.last x hx

theorem close {c : Char} (hc : Inert cs) (hn : opensName c = false) (hd : c ≠ '$') :
    Sealed (cs ++ [c]) where
  inert := List.isChain_append.mpr ⟨hc, .singleton _, fun _ _ y hy _ => by simp_all⟩
  last x hx := by simp_all

end Sealed

end Environment

namespace Yaml.Printer

open Environment (Inert Echoes Sealed opensName inert_of_not_mem)

theorem Escaped.dollar {c : Char} {out : List Char} (h : Escaped c out) :
    out = [c] ∨ '$' ∉ out := by
  have hname {x : Char} {r : Char ⊕ Nat} (hx : Quoted.escape? x = some r) : x ≠ '$' := by
    rintro rfl
    exact absurd hx (by simp [show Quoted.escape? '$' = none by decide])
  cases h with
  | shown => exact .inl rfl
  | named hx => exact .inr (by simpa using (hname hx).symm)
  | coded hx hc =>
    refine .inr ?_
    rename_i x ds
    have hds : '$' ∉ ds := fun hm => absurd (isSome_hexValue?_of_code? hc _ hm) (by decide)
    simp [hds, (hname hx).symm]

theorem Escaped.head? {c : Char} {out : List Char} (h : Escaped c out) :
    ∃ y, out.head? = some y ∧ (opensName y = true → y = c) := by
  cases h with
  | shown => exact ⟨c, rfl, fun _ => rfl⟩
  | named => exact ⟨'\\', rfl, fun h => absurd h (by decide)⟩
  | coded => exact ⟨'\\', rfl, fun h => absurd h (by decide)⟩

theorem echoes_escaped (cs : List Char) : Echoes (cs.flatMap escaped ++ ['"']) cs := by
  cases cs with
  | nil =>
    intro y hy ho
    obtain rfl : '"' = y := by simpa using hy
    exact absurd ho (by decide)
  | cons c cs =>
    obtain ⟨z, hz, ho⟩ := (escaped_spec c).head?
    intro y hy hopens
    have hhead : (escaped c ++ (cs.flatMap escaped ++ ['"'])).head? = some z := by
      rw [List.head?_append, hz, Option.some_or]
    rw [List.flatMap_cons, List.append_assoc, hhead] at hy
    obtain rfl : z = y := by simpa using hy
    rw [ho hopens]
    rfl

theorem inert_escaped {cs : List Char} (h : Inert cs) :
    Inert (cs.flatMap escaped ++ ['"']) := by
  induction cs with
  | nil => exact .singleton _
  | cons c cs ih =>
    have hrest := ih (List.IsChain.of_cons h)
    rw [List.flatMap_cons, List.append_assoc]
    rcases (escaped_spec c).dollar with he | he
    · rw [he]
      exact h.written (.singleton _) (by simp) hrest (echoes_escaped cs)
    · refine h.written (inert_of_not_mem he) (fun x hx hd => ?_) hrest (echoes_escaped cs)
      exact absurd (hd ▸ List.mem_of_getLast? hx) he

theorem dollar_not_mem_margin (k : Nat) : '$' ∉ margin k := by
  simp [margin, List.mem_replicate]

theorem inert_indented (indented : Bool) (k : Nat) {run : List Char} (h : Inert run) :
    Inert ((if indented then margin k else []) ++ run) := by
  cases indented with
  | false => exact h
  | true =>
    refine List.isChain_append.mpr ⟨inert_of_not_mem (dollar_not_mem_margin k), h, ?_⟩
    exact fun x hx _ _ hd => absurd (hd ▸ List.mem_of_getLast? hx) (dollar_not_mem_margin k)

theorem echoes_indented (indented : Bool) (k : Nat) (c : Char) (out rest : List Char) :
    Echoes ((if indented then margin k else []) ++ c :: out) (c :: rest) := by
  intro y hy ho
  cases indented with
  | false => exact hy
  | true =>
    cases k with
    | zero => exact hy
    | succ k =>
      obtain rfl : ' ' = y := by simpa [margin, List.replicate_succ] using hy
      exact absurd ho (by decide)

theorem echoes_singleFrom (k : Nat) (b : Bool) (cs : List Char) :
    Echoes (singleFrom k b cs ++ [Char.ofNat 39]) cs := by
  cases cs with
  | nil =>
    intro y hy ho
    obtain rfl : Char.ofNat 39 = y := by simpa [singleFrom] using hy
    exact absurd ho (by decide)
  | cons c cs =>
    rw [singleFrom_cons, List.append_assoc]
    by_cases hq : c.toNat = 39
    · rw [if_pos hq]
      exact echoes_indented _ k c _ cs
    · rw [if_neg hq]
      exact echoes_indented _ k c _ cs

theorem inert_singleFrom (k : Nat) (b : Bool) {cs : List Char} (h : Inert cs) :
    Inert (singleFrom k b cs ++ [Char.ofNat 39]) := by
  induction cs generalizing b with
  | nil => exact .singleton _
  | cons c cs ih =>
    have hrest := ih (isBreak c) (List.IsChain.of_cons h)
    have hrun : Inert (if c.toNat = 39 then [c, c] else [c]) ∧
        ∀ x ∈ (if c.toNat = 39 then [c, c] else [c]).getLast?, x = '$' → c = '$' := by
      split
      · next hc =>
        have hd : '$' ≠ c := by
          rintro rfl
          exact absurd hc (by decide)
        exact ⟨inert_of_not_mem (by simpa using hd), by simp⟩
      · exact ⟨.singleton _, by simp⟩
    rw [singleFrom_cons, List.append_assoc, List.append_assoc]
    exact inert_indented _ k (h.written hrun.1 hrun.2 hrest (echoes_singleFrom k _ cs))

theorem echoes_blockFrom (k : Nat) (b : Bool) (cs : List Char) : Echoes (blockFrom k b cs) cs := by
  cases cs with
  | nil => exact fun y hy => by cases hy
  | cons c cs =>
    rw [blockFrom_cons]
    exact echoes_indented _ k c _ cs

theorem inert_blockFrom (k : Nat) (b : Bool) {cs : List Char} (h : Inert cs) :
    Inert (blockFrom k b cs) := by
  induction cs generalizing b with
  | nil => exact .nil
  | cons c cs ih =>
    have hrest := ih (isBreak c) (List.IsChain.of_cons h)
    rw [blockFrom_cons]
    exact inert_indented _ k
      (h.written (.singleton c) (by simp) hrest (echoes_blockFrom k _ cs))

theorem getLast?_blockFrom (k : Nat) (b : Bool) (cs : List Char) :
    (blockFrom k b cs).getLast? = cs.getLast? := by
  induction cs generalizing b with
  | nil => rfl
  | cons c cs ih =>
    rw [blockFrom_cons, List.getLast?_append, List.getLast?_append, ih, List.getLast?_singleton,
      List.getLast?_cons]
    cases cs.getLast? <;> rfl

theorem sealed_literal (k : Nat) {cs : List Char} (h : Inert cs) :
    Sealed (literal k cs ++ if endsWithBreak cs then [] else ['\n']) := by
  have hhead : Sealed ('|' :: blockMarks cs) := by
    refine .of_not_mem fun hd => ?_
    rcases List.mem_cons.mp hd with hbar | hmarks
    · exact absurd hbar (by decide)
    · exact absurd (mem_blockMarks hmarks) (by decide)
  obtain ⟨opening, hopening, he⟩ := literal_eq k cs
  have hopen : Sealed opening := .of_not_mem (by rcases hopening with rfl | rfl <;> decide)
  rw [he, List.append_assoc, List.append_assoc]
  refine hhead.append (hopen.append ?_)
  split
  · next hb =>
    rw [List.append_nil]
    refine ⟨inert_blockFrom k true h, fun x hx => ?_⟩
    rw [getLast?_blockFrom] at hx
    rw [endsWithBreak, hx] at hb
    rintro rfl
    exact absurd hb (by decide)
  · exact .close (inert_blockFrom k true h) (by decide) (by decide)

theorem sealed_string (k : Nat) (plain : Bool) {cs : List Char} (h : Inert cs) :
    Sealed (string k plain cs) := by
  have hnl {out : List Char} (h : Inert out) : Sealed (out ++ ['\n']) :=
    .close h (by decide) (by decide)
  have hopen {c : Char} {out : List Char} (hc : c ≠ '$') (h : Inert out) : Inert (c :: out) :=
    List.isChain_cons.mpr ⟨fun _ _ hd => absurd hd hc, h⟩
  have hdouble : Inert (double cs) := hopen (by decide) (inert_escaped h)
  have hsingle : Inert (single k cs) := hopen (by decide) (inert_singleFrom k false h)
  unfold string
  dsimp only
  split
  · split
    · exact sealed_literal k h
    · exact hnl hdouble
  · split
    · refine hnl ?_
      split
      · exact h
      · split
        · exact hsingle
        · exact hdouble
    · exact hnl hdouble

theorem dollar_not_mem_base64Lines (data : Bytes) : '$' ∉ base64Lines data := by
  intro h
  rcases mem_base64Lines h with h | h <;> revert h <;> decide

theorem sealed_text (k : Nat) {t : Text} (h : ∀ cs : List Char, t = cs.map .char → Inert cs) :
    Sealed (text k t) := by
  unfold text
  split
  · next cs hc => exact sealed_string k _ (h cs (eq_map_of_chars? hc))
  · exact (Sealed.of_not_mem (by decide)).append
      (sealed_string k true (inert_of_not_mem (dollar_not_mem_base64Lines _)))

end Yaml.Printer

end FlowPack
