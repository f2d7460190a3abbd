import FlowPack.Archive.Scan
import FlowPack.Proofs.Words
import Mathlib.Data.List.Pairwise

namespace FlowPack.Archive

def Candidate.at? (data : Bytes) (table : Table) (origin stride index : Nat) :
    Option Candidate := do
  let start ← Word.at? data (origin + index * stride + 4)
  let assets ← Word.at? data (origin + index * stride + 8)
  return ⟨table, index, start, assets⟩

def TempoCandidate.at? (data : Bytes) (origin stride index : Nat) : Option TempoCandidate := do
  let id1 ← Word.at? data (origin + index * stride)
  let id2 ← Word.at? data (origin + index * stride + 4)
  let position ← Word.at? data (origin + index * stride + 8)
  let padding ← Word.at? data (origin + index * stride + 12)
  return ⟨index, id1, id2, position, padding⟩

namespace Layout

def gapOrigin (l : Layout) : Nat := l.gameRecords.toNat * l.gameStride.toNat

def tempoOrigin (l : Layout) : Nat := l.gapOrigin + l.tableGap.toNat

def gateOrigin (l : Layout) : Nat := l.tempoOrigin + l.tempoRecords.toNat * l.tempoStride.toNat

def span (l : Layout) : Nat := l.gateOrigin + l.gateRecords.toNat * l.gateStride.toNat

inductive Field (l : Layout) : Nat → Prop where
  | game {i k : Nat} (hi : i < l.gameRecords.toNat) (hk : 4 ≤ k) (hk' : k < 12) :
    Field l (i * l.gameStride.toNat + k)
  | tempo {i k : Nat} (hi : i < l.tempoRecords.toNat) (hk : k < 16) :
    Field l (l.tempoOrigin + i * l.tempoStride.toNat + k)
  | gate {i k : Nat} (hi : i < l.gateRecords.toNat) (hk : 4 ≤ k) (hk' : k < 12) :
    Field l (l.gateOrigin + i * l.gateStride.toNat + k)

/-- What the check of a layout is good for. -/
structure Sound (l : Layout) : Prop where
  game : 12 ≤ l.gameStride.toNat
  tempo : 16 ≤ l.tempoStride.toNat
  gate : 12 ≤ l.gateStride.toNat
  span : (l.span : Int) = l.extent

theorem sound_of_check {l : Layout} (h : l.check = .ok ()) : l.Sound := by
  unfold check at h
  split at h
  · cases h
  next hn =>
  split at h
  · cases h
  next he =>
  split at h
  · cases h
  next ht =>
  simp only [entryFieldsSize, tempoFieldsSize] at he ht
  have hspan : (l.span : Int) = l.extent := by
    simp (disch := omega) only [Layout.span, gateOrigin, tempoOrigin, gapOrigin, extent,
      Int.natCast_add, Int.natCast_mul, Int.toNat_of_nonneg]
  exact ⟨by omega, by omega, by omega, hspan⟩

end Layout

/-- What is read in one go: a record, or the gap. -/
structure Piece where
  table : Table
  index : Nat
  gap : Bool
  offset : Nat
  size : Nat
  deriving DecidableEq, Repr

namespace Piece

def records (table : Table) (origin stride count : Nat) : List Piece :=
  (List.range count).map fun i => ⟨table, i, false, origin + i * stride, stride⟩

/-- Data of this length end in the piece. -/
def Cuts (length : Nat) (p : Piece) : Prop := p.offset ≤ length ∧ length < p.offset + p.size

/-- The fault that is told of when the data end in the piece. A fault that tells of missing data is
taken for the end, in the gap only if it tells of a plain end. -/
def told (p : Piece) (fault : Option Fault) : Option Fault :=
  fault.filter fun f => !(if p.gap then f.saysEnded else f.saysShort)

def shortage (p : Piece) (fault : Option Fault) : Shortage :=
  ⟨p.table, p.index, p.offset, p.gap, p.told fault⟩

def Before (p q : Piece) : Prop := p.offset + p.size ≤ q.offset

section Records

variable {table : Table} {origin stride count : Nat}

theorem bounds_of_mem_records {p : Piece} (h : p ∈ records table origin stride count) :
    origin ≤ p.offset ∧ p.offset + p.size ≤ origin + count * stride := by
  obtain ⟨i, hi, rfl⟩ := List.mem_map.mp h
  have hfit : (i + 1) * stride ≤ count * stride :=
    Nat.mul_le_mul_right stride (List.mem_range.mp hi)
  rw [Nat.succ_mul] at hfit
  dsimp only
  omega

theorem pairwise_records : (records table origin stride count).Pairwise Before := by
  rw [records, List.pairwise_map]
  apply List.pairwise_lt_range.imp
  intro i j hij
  have hfit : (i + 1) * stride ≤ j * stride := Nat.mul_le_mul_right stride hij
  rw [Nat.succ_mul] at hfit
  dsimp only [Before]
  omega

theorem mem_records {i : Nat} (h : i < count) :
    ⟨table, i, false, origin + i * stride, stride⟩ ∈ records table origin stride count :=
  List.mem_map.mpr ⟨i, List.mem_range.mpr h, rfl⟩

end Records

end Piece

def Position.reached (data : Bytes) (offset : Nat) : Position := ⟨offset, data.drop offset⟩

section Read

variable {data : Bytes} {offset : Nat}

theorem take?_reached (h : offset ≤ data.length) (size : Nat) :
    (Position.reached data offset).take? size =
      if offset + size ≤ data.length then
        some ((data.drop offset).take size, Position.reached data (offset + size))
      else none := by
  have hl : ((data.drop offset).take size).length = size ↔ offset + size ≤ data.length := by
    rw [List.length_take, List.length_drop]
    omega
  simp only [Position.reached, Position.take?, hl, List.drop_drop]

variable {α : Type} (fault : Option Fault) (table : Table) {stride : Nat} (read : Nat → Bytes → α)

theorem readTable_of_le {count : Nat} (h : offset + count * stride ≤ data.length) (index : Nat) :
    readTable fault table stride read count index (Position.reached data offset) =
      .ok ((List.range count).map fun k =>
          read (index + k) ((data.drop (offset + k * stride)).take stride),
        Position.reached data (offset + count * stride)) := by
  induction count generalizing offset index with
  | zero => simp [readTable]
  | succ count ih =>
    rw [Nat.succ_mul] at h
    have hstep := take?_reached (show offset ≤ data.length by omega) stride
    rw [if_pos (by omega)] at hstep
    have hle : offset + stride + count * stride ≤ data.length := by omega
    have hrest := ih hle (index + 1)
    have hshift : ∀ k, offset + stride + k * stride = offset + (k + 1) * stride := by
      intro k
      rw [Nat.succ_mul]
      omega
    simp only [readTable, hstep, hrest, hshift, List.range_succ_eq_map, List.map_cons,
      List.map_map, Nat.add_zero, Nat.zero_mul]
    simp only [Function.comp_def, Nat.succ_eq_add_one, Nat.add_assoc, Nat.add_comm 1]

theorem readTable_of_lt {count : Nat} (h : offset ≤ data.length)
    (hlt : data.length < offset + count * stride) (index : Nat) :
    ∃ k < count, offset + k * stride ≤ data.length ∧
      data.length < offset + k * stride + stride ∧
      readTable fault table stride read count index (Position.reached data offset) =
        .error ⟨table, index + k, offset + k * stride, false, fault.filter (!·.saysShort)⟩ := by
  induction count generalizing offset index with
  | zero => omega
  | succ count ih =>
    have hstep := take?_reached h stride
    -- Either this record is there and the shortage is met further on, or it is the one.
    by_cases hle : offset + stride ≤ data.length
    · rw [if_pos hle] at hstep
      rw [Nat.succ_mul] at hlt
      obtain ⟨k, hk, hk₁, hk₂, hr⟩ := ih hle (by omega) (index + 1)
      have hshift : offset + (k + 1) * stride = offset + stride + k * stride := by
        rw [Nat.succ_mul]
        omega
      refine ⟨k + 1, by omega, by omega, by omega, ?_⟩
      rw [readTable, hstep]
      simp only [hr, hshift, Nat.add_assoc, Nat.add_comm 1]
    · rw [if_neg hle] at hstep
      refine ⟨0, by omega, by omega, by omega, ?_⟩
      rw [readTable, hstep]
      simp only [Nat.add_zero, Nat.zero_mul]
      rfl

theorem readTable_eq_ok {count : Nat} {record? : Nat → Option α}
    (h : offset + count * stride ≤ data.length)
    (hr : ∀ k, offset + k * stride + stride ≤ data.length →
      record? k = some (read k ((data.drop (offset + k * stride)).take stride))) :
    ∃ records, records.map some = (List.range count).map record? ∧
      readTable fault table stride read count 0 (Position.reached data offset) =
        .ok (records, Position.reached data (offset + count * stride)) := by
  refine ⟨_, ?_, readTable_of_le fault table read h 0⟩
  rw [List.map_map]
  apply List.map_congr_left
  intro k hk
  have hfit : k * stride + stride ≤ count * stride := by
    rw [← Nat.succ_mul]
    exact Nat.mul_le_mul_right stride (List.mem_range.mp hk)
  rw [hr k (by omega), Function.comp_apply, Nat.zero_add]

theorem readTable_eq_error {count : Nat} (h : offset ≤ data.length)
    (hlt : data.length < offset + count * stride) :
    ∃ p ∈ Piece.records table offset stride count, p.Cuts data.length ∧
      readTable fault table stride read count 0 (Position.reached data offset) =
        .error (p.shortage fault) := by
  obtain ⟨k, hk, hle, hcut, hr⟩ := readTable_of_lt fault table read h hlt 0
  refine ⟨_, Piece.mem_records hk, ⟨hle, hcut⟩, ?_⟩
  rw [hr, Nat.zero_add]
  rfl

end Read

section Fields

variable {data : Bytes} {table : Table} {origin stride index : Nat}

theorem at?_eq_some_wordAt {record : Bytes} {k : Nat} (h : k + 4 ≤ record.length) :
    Word.at? record k = some (wordAt record k) := by
  cases hw : Word.at? record k with
  | none =>
    have := Word.at?_eq_none_iff.mp hw
    omega
  | some w => rw [wordAt, hw, Option.getD_some]

theorem at?_field {o size k : Nat} (h : o + size ≤ data.length) (hk : k + 4 ≤ size) :
    Word.at? data (o + k) = some (wordAt ((data.drop o).take size) k) := by
  rw [← Word.at?_take_drop hk]
  apply at?_eq_some_wordAt
  rw [List.length_take, List.length_drop]
  omega

theorem Candidate.at?_eq_some (table : Table) (hs : 12 ≤ stride)
    (h : origin + index * stride + stride ≤ data.length) :
    Candidate.at? data table origin stride index =
      some (.ofRecord table index ((data.drop (origin + index * stride)).take stride)) := by
  have hstart := at?_field (k := 4) h (by omega)
  have hassets := at?_field (k := 8) h (by omega)
  rw [Candidate.at?, hstart, hassets]
  rfl

theorem TempoCandidate.at?_eq_some (hs : 16 ≤ stride)
    (h : origin + index * stride + stride ≤ data.length) :
    TempoCandidate.at? data origin stride index =
      some (.ofRecord index ((data.drop (origin + index * stride)).take stride)) := by
  have hid1 := at?_field (k := 0) h (by omega)
  have hid2 := at?_field (k := 4) h (by omega)
  have hposition := at?_field (k := 8) h (by omega)
  have hpadding := at?_field (k := 12) h (by omega)
  rw [Nat.add_zero] at hid1
  rw [TempoCandidate.at?, hid1, hid2, hposition, hpadding]
  rfl

variable {other : Bytes}

theorem at?_field_congr {o first last k : Nat}
    (h : ∀ k, first ≤ k → k < last → other[o + k]? = data[o + k]?) (hfirst : first ≤ k)
    (hlast : k + 4 ≤ last) : Word.at? other (o + k) = Word.at? data (o + k) := by
  apply Word.at?_congr
  intro i hi hi'
  obtain ⟨m, rfl⟩ := Nat.exists_eq_add_of_le hi
  rw [Nat.add_assoc]
  exact h (k + m) (by omega) (by omega)

theorem Candidate.at?_congr
    (h : ∀ k, 4 ≤ k → k < 12 →
      other[origin + index * stride + k]? = data[origin + index * stride + k]?) :
    Candidate.at? other table origin stride index =
      Candidate.at? data table origin stride index := by
  have hstart := at?_field_congr (k := 4) h (by omega) (by omega)
  have hassets := at?_field_congr (k := 8) h (by omega) (by omega)
  rw [Candidate.at?, Candidate.at?, hstart, hassets]

theorem TempoCandidate.at?_congr
    (h : ∀ k, 0 ≤ k → k < 16 →
      other[origin + index * stride + k]? = data[origin + index * stride + k]?) :
    TempoCandidate.at? other origin stride index =
      TempoCandidate.at? data origin stride index := by
  have hid1 := at?_field_congr (k := 0) h (by omega) (by omega)
  have hid2 := at?_field_congr (k := 4) h (by omega) (by omega)
  have hposition := at?_field_congr (k := 8) h (by omega) (by omega)
  have hpadding := at?_field_congr (k := 12) h (by omega) (by omega)
  rw [Nat.add_zero] at hid1
  rw [TempoCandidate.at?, TempoCandidate.at?, hid1, hid2, hposition, hpadding]

end Fields

namespace Layout

variable {l : Layout}

structure Lists (l : Layout) (data : Bytes) (r : Records) : Prop where
  games : r.games.map some = (List.range l.gameRecords.toNat).map
    (Candidate.at? data .game 0 l.gameStride.toNat)
  tempos : r.tempos.map some = (List.range l.tempoRecords.toNat).map
    (TempoCandidate.at? data l.tempoOrigin l.tempoStride.toNat)
  gates : r.gates.map some = (List.range l.gateRecords.toNat).map
    (Candidate.at? data .gate l.gateOrigin l.gateStride.toNat)

theorem readRecords_of_le (hl : l.Sound) {s : Source} (h : l.span ≤ s.data.length) :
    ∃ r, readRecords l s = .ok r ∧ l.Lists s.data r := by
  have hspan : l.gateOrigin + l.gateRecords.toNat * l.gateStride.toNat ≤ s.data.length := h
  have hgate : l.tempoOrigin + l.tempoRecords.toNat * l.tempoStride.toNat = l.gateOrigin := rfl
  have htempo : l.gapOrigin + l.tableGap.toNat = l.tempoOrigin := rfl
  have hgap : 0 + l.gameRecords.toNat * l.gameStride.toNat = l.gapOrigin := Nat.zero_add _
  obtain ⟨games, hgames, hread₁⟩ := readTable_eq_ok s.fault .game _
    (show 0 + l.gameRecords.toNat * l.gameStride.toNat ≤ s.data.length by omega)
    fun k hk => Candidate.at?_eq_some .game hl.game hk
  have hskip := take?_reached (show l.gapOrigin ≤ s.data.length by omega) l.tableGap.toNat
  rw [if_pos (by omega)] at hskip
  obtain ⟨tempos, htempos, hread₂⟩ := readTable_eq_ok s.fault .tempo _
    (show l.tempoOrigin + l.tempoRecords.toNat * l.tempoStride.toNat ≤ s.data.length by omega)
    fun k hk => TempoCandidate.at?_eq_some hl.tempo hk
  obtain ⟨gates, hgates, hread₃⟩ := readTable_eq_ok s.fault .gate _ hspan
    fun k hk => Candidate.at?_eq_some .gate hl.gate hk
  rw [hgap] at hread₁
  rw [hgate] at hread₂
  refine ⟨⟨games, tempos, gates, l.span⟩, ?_, hgames, htempos, hgates⟩
  have hstart : (⟨0, s.data⟩ : Position) = .reached s.data 0 := rfl
  simp only [readRecords, hstart, hread₁, skipGap, hskip, hread₂, hread₃, bind, Except.bind,
    htempo]
  rfl

theorem eq_of_map_some_eq {α : Type} {n : Nat} {rs rs' : List α} {f g : Nat → Option α}
    (h : rs.map some = (List.range n).map f) (h' : rs'.map some = (List.range n).map g)
    (hfg : ∀ i < n, g i = f i) : rs' = rs := by
  apply (List.map_inj_right fun _ _ => Option.some.inj).mp
  rw [h, h']
  apply List.map_congr_left
  intro i hi
  exact hfg i (List.mem_range.mp hi)

/-- Records are told by the bytes of their fields. -/
theorem Lists.congr {data other : Bytes} {r r' : Records} (h : l.Lists data r)
    (h' : l.Lists other r') (hf : ∀ o, l.Field o → other[o]? = data[o]?) :
    r'.games = r.games ∧ r'.tempos = r.tempos ∧ r'.gates = r.gates := by
  refine ⟨eq_of_map_some_eq h.games h'.games ?_, eq_of_map_some_eq h.tempos h'.tempos ?_,
    eq_of_map_some_eq h.gates h'.gates ?_⟩
  · intro i hi
    apply Candidate.at?_congr
    intro k hk hk'
    rw [Nat.zero_add]
    exact hf _ (.game hi hk hk')
  · intro i hi
    apply TempoCandidate.at?_congr
    intro k _ hk
    exact hf _ (.tempo hi hk)
  · intro i hi
    apply Candidate.at?_congr
    intro k hk hk'
    exact hf _ (.gate hi hk hk')

end Layout

theorem result_scan {l : Layout} (hl : l.check = .ok ()) (s : Source) (base : UInt32) :
    (scan l s base).result =
      match readRecords l s with
      | .error e => .error (.table e)
      | .ok r => .ok (r.report base) := by
  rw [scan, hl]
  cases readRecords l s <;> rfl

theorem scan_of_le {l : Layout} (hl : l.check = .ok ()) {s : Source} (h : l.span ≤ s.data.length) :
    ∃ r, l.Lists s.data r ∧ ∀ base, (scan l s base).result = .ok (r.report base) := by
  obtain ⟨r, hr, hlists⟩ := Layout.readRecords_of_le (Layout.sound_of_check hl) h
  exact ⟨r, hlists, fun base => by rw [result_scan hl, hr]⟩

/-- In an archive that is long enough a scan finds the records that store an offset at or past
the base, in the order of the tables but with the gates behind the games. No other byte of the
archive matters. -/
theorem scan_finds_patched_records {l : Layout} (hl : l.check = .ok ()) (s : Source)
    (hs : l.extent ≤ s.data.length) (base : UInt32) :
    ∃ r, l.Lists s.data r ∧
      (scan l s base).result = .ok
        { base
          games := r.games.filter (base ≤ ·.start) ++ r.gates.filter (base ≤ ·.start)
          tempos := r.tempos.filter (base ≤ ·.position) } ∧
      ∀ s' : Source, l.extent ≤ s'.data.length →
        (∀ o, l.Field o → s'.data[o]? = s.data[o]?) →
          (scan l s' base).result = (scan l s base).result := by
  have hsound := Layout.sound_of_check hl
  have hspan := hsound.span
  obtain ⟨r, hr, hlists⟩ := Layout.readRecords_of_le hsound (s := s) (by omega)
  have hresult : (scan l s base).result = .ok (r.report base) := by rw [result_scan hl, hr]
  refine ⟨r, hlists, ?_, ?_⟩
  · rw [hresult, Records.report, List.filter_append]
  · intro s' hs' hf
    obtain ⟨r', hr', hlists'⟩ := Layout.readRecords_of_le hsound (s := s') (by omega)
    obtain ⟨hgames, htempos, hgates⟩ := hlists.congr hlists' hf
    rw [hresult, result_scan hl, hr']
    simp only [Records.report, hgames, htempos, hgates]

def sampleLayout : Layout := ⟨2, 12, 3, 1, 16, 1, 13⟩

/-- Two games, a gap, a tempo, a gate with a byte to spare, and a byte behind the tables. -/
def sampleArchive : Bytes :=
  [0, 5, 6, 0, 4, 9].flatMap Word.bytes ++ [1, 1, 1] ++ [1, 2, 7, 3].flatMap Word.bytes ++
    [0, 9, 8].flatMap Word.bytes ++ [1] ++ [2]

theorem scan_finds_patched_records_sample :
    (scan sampleLayout ⟨sampleArchive, none⟩ 5).result =
      .ok ⟨5, [⟨.game, 0, 5, 6⟩, ⟨.gate, 0, 9, 8⟩], [⟨0, 1, 2, 7, 3⟩]⟩ := by
  obtain ⟨r, ⟨hgames, htempos, hgates⟩, hr, -⟩ :=
    scan_finds_patched_records (l := sampleLayout) rfl ⟨sampleArchive, none⟩ (by decide) 5
  have hg : r.games = [⟨.game, 0, 5, 6⟩, ⟨.game, 1, 4, 9⟩] :=
    (List.map_inj_right fun _ _ => Option.some.inj).mp (hgames.trans (by decide))
  have ht : r.tempos = [⟨0, 1, 2, 7, 3⟩] :=
    (List.map_inj_right fun _ _ => Option.some.inj).mp (htempos.trans (by decide))
  have hk : r.gates = [⟨.gate, 0, 9, 8⟩] :=
    (List.map_inj_right fun _ _ => Option.some.inj).mp (hgates.trans (by decide))
  rw [hr, hg, ht, hk]
  rfl

namespace Layout

def gapPiece (l : Layout) : Piece :=
  ⟨.game, l.gameRecords.toNat, true, l.gapOrigin, l.tableGap.toNat⟩

def pieces (l : Layout) : List Piece :=
  Piece.records .game 0 l.gameStride.toNat l.gameRecords.toNat ++ l.gapPiece ::
    (Piece.records .tempo l.tempoOrigin l.tempoStride.toNat l.tempoRecords.toNat ++
      Piece.records .gate l.gateOrigin l.gateStride.toNat l.gateRecords.toNat)

theorem pairwise_pieces (l : Layout) : l.pieces.Pairwise Piece.Before := by
  have htables : ∀ p ∈ Piece.records .tempo l.tempoOrigin l.tempoStride.toNat
      l.tempoRecords.toNat ++ Piece.records .gate l.gateOrigin l.gateStride.toNat
      l.gateRecords.toNat, l.tempoOrigin ≤ p.offset := by
    intro p hp
    rcases List.mem_append.mp hp with hp | hp
    · exact (Piece.bounds_of_mem_records hp).1
    · have := (Piece.bounds_of_mem_records hp).1
      unfold gateOrigin at this
      omega
  refine List.pairwise_append.mpr ⟨Piece.pairwise_records, List.pairwise_cons.mpr ⟨?_, ?_⟩, ?_⟩
  · exact htables
  · refine List.pairwise_append.mpr ⟨Piece.pairwise_records, Piece.pairwise_records, ?_⟩
    intro p hp q hq
    exact Nat.le_trans (Piece.bounds_of_mem_records hp).2 (Piece.bounds_of_mem_records hq).1
  · intro p hp q hq
    have hend := (Piece.bounds_of_mem_records hp).2
    rw [Nat.zero_add] at hend
    rcases List.mem_cons.mp hq with rfl | hq
    · exact hend
    · have hstart := htables q hq
      unfold tempoOrigin gapOrigin at hstart
      unfold Piece.Before
      omega

/-- Data end in one piece at most. -/
theorem cuts_unique {l : Layout} {n : Nat} {p q : Piece} (hp : p ∈ l.pieces) (hq : q ∈ l.pieces)
    (hcp : p.Cuts n) (hcq : q.Cuts n) : q = p := by
  have hbefore := List.pairwise_iff_getElem.mp l.pairwise_pieces
  obtain ⟨i, hi, rfl⟩ := List.getElem_of_mem hp
  obtain ⟨j, hj, rfl⟩ := List.getElem_of_mem hq
  unfold Piece.Cuts at hcp hcq
  unfold Piece.Before at hbefore
  rcases Nat.lt_trichotomy i j with hij | rfl | hji
  · have := hbefore i j hi hj hij
    omega
  · rfl
  · have := hbefore j i hj hi hji
    omega

theorem readRecords_of_lt {l : Layout} {s : Source} (h : s.data.length < l.span) :
    ∃ p ∈ l.pieces, p.Cuts s.data.length ∧ readRecords l s = .error (p.shortage s.fault) := by
  have hstart : (⟨0, s.data⟩ : Position) = .reached s.data 0 := rfl
  have hgap : 0 + l.gameRecords.toNat * l.gameStride.toNat = l.gapOrigin := Nat.zero_add _
  have htempo : l.gapOrigin + l.tableGap.toNat = l.tempoOrigin := rfl
  have hgate : l.tempoOrigin + l.tempoRecords.toNat * l.tempoStride.toNat = l.gateOrigin := rfl
  -- The data end in the first part that they do not fill.
  by_cases hgames : s.data.length < l.gapOrigin
  · obtain ⟨p, hp, hcut, hread⟩ := readTable_eq_error s.fault .game
      (Candidate.ofRecord .game) (Nat.zero_le s.data.length)
      (show s.data.length < 0 + l.gameRecords.toNat * l.gameStride.toNat by omega)
    refine ⟨p, List.mem_append_left _ hp, hcut, ?_⟩
    simp only [readRecords, hstart, hread, bind, Except.bind]
  have hread₁ := readTable_of_le s.fault .game (Candidate.ofRecord .game)
    (show 0 + l.gameRecords.toNat * l.gameStride.toNat ≤ s.data.length by omega) 0
  rw [hgap] at hread₁
  have hskip := take?_reached (show l.gapOrigin ≤ s.data.length by omega) l.tableGap.toNat
  by_cases hskipped : s.data.length < l.tempoOrigin
  · rw [if_neg (by omega)] at hskip
    refine ⟨l.gapPiece, List.mem_append_right _ List.mem_cons_self, ⟨?_, hskipped⟩, ?_⟩
    · exact Nat.le_of_not_lt hgames
    · simp only [readRecords, hstart, hread₁, skipGap, hskip, bind, Except.bind]
      rfl
  rw [if_pos (by omega), htempo] at hskip
  by_cases htempos : s.data.length < l.gateOrigin
  · obtain ⟨p, hp, hcut, hread⟩ := readTable_eq_error s.fault .tempo
      TempoCandidate.ofRecord (Nat.le_of_not_lt hskipped) (hgate ▸ htempos)
    refine ⟨p, List.mem_append_right _ (List.mem_cons_of_mem _ (List.mem_append_left _ hp)),
      hcut, ?_⟩
    simp only [readRecords, hstart, hread₁, skipGap, hskip, hread, bind, Except.bind]
  have hread₂ := readTable_of_le s.fault .tempo TempoCandidate.ofRecord
    (show l.tempoOrigin + l.tempoRecords.toNat * l.tempoStride.toNat ≤ s.data.length by omega) 0
  rw [hgate] at hread₂
  obtain ⟨p, hp, hcut, hread⟩ := readTable_eq_error s.fault .gate
    (Candidate.ofRecord .gate) (Nat.le_of_not_lt htempos) h
  refine ⟨p, List.mem_append_right _ (List.mem_cons_of_mem _ (List.mem_append_right _ hp)),
    hcut, ?_⟩
  simp only [readRecords, hstart, hread₁, skipGap, hskip, hread₂, hread, bind, Except.bind]

end Layout

theorem scanWithin_of_room {l : Layout} (hl : l.check = .ok ()) {room : Nat} {s : Source}
    (h : ∀ size ∈ l.buffers s.data.length, size ≤ room) (base : UInt32) :
    scanWithin room l s base = some (scan l s base) := by
  have hall : (l.buffers s.data.length).all (· ≤ room) = true := by simpa using h
  rw [scanWithin, hl]
  exact if_pos hall

/-- An archive that is too short is reported at the one piece in which it ends, with the fault
that kept the rest from being read, unless there was none or it told of missing data itself. A fault
behind the tables is not met. -/
theorem scan_reports_cut_piece {l : Layout} (hl : l.check = .ok ()) (s : Source) (base : UInt32)
    {room : Nat} (hroom : ∀ size ∈ l.buffers s.data.length, size ≤ room) :
    ∃ found, scanWithin room l s base = some found ∧
      (s.data.length < l.extent →
        ∃ p ∈ l.pieces, p.Cuts s.data.length ∧
          (∀ q ∈ l.pieces, q.Cuts s.data.length → q = p) ∧
          found.result = .error (.table ⟨p.table, p.index, p.offset, p.gap, p.told s.fault⟩)) ∧
      (l.extent ≤ s.data.length → ∃ r, found.result = .ok r) := by
  have hsound := Layout.sound_of_check hl
  have hspan := hsound.span
  refine ⟨_, scanWithin_of_room hl hroom base, ?_, ?_⟩
  · intro hs
    obtain ⟨p, hp, hcut, hr⟩ := Layout.readRecords_of_lt (l := l) (s := s) (by omega)
    refine ⟨p, hp, hcut, fun q hq hcq => Layout.cuts_unique hp hq hcut hcq, ?_⟩
    rw [result_scan hl, hr]
    rfl
  · intro hs
    obtain ⟨r, hr, -⟩ := Layout.readRecords_of_le hsound (s := s) (by omega)
    exact ⟨r.report base, by rw [result_scan hl, hr]⟩

theorem scan_reports_cut_piece_sample :
    (∃ found, scanWithin 16 sampleLayout ⟨sampleArchive.take 15, none⟩ 5 = some found ∧
        found.result = .error (.table ⟨.game, 1, 12, false, none⟩)) ∧
      (∃ found, scanWithin 16 sampleLayout ⟨sampleArchive.take 15, some .badStream⟩ 5 = some found ∧
        found.result = .error (.table ⟨.game, 1, 12, false, some .badStream⟩)) ∧
      ∃ found, scanWithin 16 sampleLayout ⟨sampleArchive.take 25, some .cutOff⟩ 5 = some found ∧
        found.result = .error (.table ⟨.game, 2, 24, true, some .cutOff⟩) := by
  have hroom : ∀ size ∈ [12], size ≤ 16 := by decide
  have hrecord (fault : Option Fault) :
      ∃ found, scanWithin 16 sampleLayout ⟨sampleArchive.take 15, fault⟩ 5 = some found ∧
        found.result = .error (.table ⟨.game, 1, 12, false, fault.filter (!·.saysShort)⟩) := by
    obtain ⟨found, hfound, hcut, -⟩ :=
      scan_reports_cut_piece (l := sampleLayout) rfl ⟨sampleArchive.take 15, fault⟩ 5 hroom
    have hlen : (sampleArchive.take 15).length = 15 := rfl
    obtain ⟨p, -, -, hp, hr⟩ := hcut (by rw [hlen]; decide)
    obtain rfl := hp ⟨.game, 1, false, 12, 12⟩ (by decide) (by rw [hlen]; unfold Piece.Cuts; decide)
    exact ⟨found, hfound, hr⟩
  refine ⟨hrecord none, hrecord (some .badStream), ?_⟩
  obtain ⟨found, hfound, hcut, -⟩ :=
    scan_reports_cut_piece (l := sampleLayout) rfl ⟨sampleArchive.take 25, some .cutOff⟩ 5 hroom
  obtain ⟨p, -, -, hp, hr⟩ := hcut (by decide)
  obtain rfl := hp sampleLayout.gapPiece (by decide) (by unfold Piece.Cuts; decide)
  exact ⟨found, hfound, hr⟩

/-- A stream that is cut off inside a record passes for an archive that ends there, and a valid
layout may have records that there is no room for. -/
theorem cut_stream_passes_for_end :
    (scan sampleLayout ⟨sampleArchive.take 15, some .cutOff⟩ 5).result =
        .error (.table ⟨.game, 1, 12, false, none⟩) ∧
      scanWithin 0x1000000000000 ⟨1, 0x4000000000000000, 0, 0, 16, 0, 12⟩ ⟨[], none⟩ 5 = none :=
  ⟨rfl, rfl⟩

/-- The base decides which records are listed and nothing else: neither whether the archive can be
read nor what its records are. -/
theorem scan_cases (l : Layout) (s : Source) :
    (∃ e, ∀ base, (scan l s base).result = .error e) ∨
      ∃ r : Records, ∀ base, (scan l s base).result = .ok (r.report base) := by
  cases hl : l.check with
  | error e =>
    refine .inl ⟨.layout e, fun base => ?_⟩
    rw [scan, hl]
  | ok _ =>
    cases hr : readRecords l s with
    | error e => exact .inl ⟨.table e, fun base => by rw [result_scan hl, hr]⟩
    | ok r => exact .inr ⟨r, fun base => by rw [result_scan hl, hr]⟩

theorem filter_filter_of_le {α : Type} {base raised : UInt32} (h : base ≤ raised)
    (stored : α → UInt32) (records : List α) :
    (records.filter (base ≤ stored ·)).filter (raised ≤ stored ·) =
      records.filter (raised ≤ stored ·) := by
  rw [List.filter_filter]
  apply List.filter_congr
  intro a _
  by_cases ha : raised ≤ stored a
  · simp [ha, UInt32.le_trans h ha]
  · simp [ha]

theorem Records.report_of_le {base raised : UInt32} (h : base ≤ raised) (r : Records) :
    r.report raised =
      { base := raised
        games := (r.report base).games.filter (raised ≤ ·.start)
        tempos := (r.report base).tempos.filter (raised ≤ ·.position) } := by
  simp only [report, filter_filter_of_le h]

/-- Raising the base changes neither whether a scan fails nor how. Where scans succeed, the raised
one lists those records of the other that reach the raised base, in the same order. -/
theorem raised_base_filters (l : Layout) (s : Source) {base raised : UInt32}
    (h : base ≤ raised) :
    (∀ e, (scan l s raised).result = .error e ↔ (scan l s base).result = .error e) ∧
      ∀ r r', (scan l s base).result = .ok r → (scan l s raised).result = .ok r' →
        r'.games = r.games.filter (raised ≤ ·.start) ∧
          r'.tempos = r.tempos.filter (raised ≤ ·.position) := by
  rcases scan_cases l s with ⟨e, he⟩ | ⟨records, hr⟩
  · constructor
    · intro e'
      rw [he, he]
    · intro r r' hok
      rw [he] at hok
      cases hok
  · constructor
    · intro e
      rw [hr, hr]
      simp
    · intro r r' hok hok'
      obtain rfl : records.report base = r := Except.ok.inj ((hr base).symm.trans hok)
      obtain rfl : records.report raised = r' := Except.ok.inj ((hr raised).symm.trans hok')
      rw [records.report_of_le h]
      exact ⟨rfl, rfl⟩

theorem raised_base_filters_sample :
    (scan sampleLayout ⟨sampleArchive, none⟩ 5).result =
        .ok ⟨5, [⟨.game, 0, 5, 6⟩, ⟨.gate, 0, 9, 8⟩], [⟨0, 1, 2, 7, 3⟩]⟩ ∧
      ∃ r, (scan sampleLayout ⟨sampleArchive, none⟩ 8).result = .ok r ∧
        r.games = [⟨.gate, 0, 9, 8⟩] ∧ r.tempos = [] := by
  have hbase : (scan sampleLayout ⟨sampleArchive, none⟩ 5).result =
      .ok ⟨5, [⟨.game, 0, 5, 6⟩, ⟨.gate, 0, 9, 8⟩], [⟨0, 1, 2, 7, 3⟩]⟩ := by decide
  obtain ⟨herror, hfilter⟩ := raised_base_filters sampleLayout ⟨sampleArchive, none⟩
    (show (5 : UInt32) ≤ 8 by decide)
  refine ⟨hbase, ?_⟩
  cases hraised : (scan sampleLayout ⟨sampleArchive, none⟩ 8).result with
  | error e =>
    have hfailed := (herror e).mp hraised
    rw [hbase] at hfailed
    cases hfailed
  | ok r =>
    obtain ⟨hgames, htempos⟩ := hfilter _ r hbase hraised
    exact ⟨r, rfl, hgames.trans (by decide), htempos.trans (by decide)⟩

end FlowPack.Archive
