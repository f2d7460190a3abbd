import FlowPack.Proofs.Scanning

namespace FlowPack.Archive

theorem Candidate.taggedIndex_of_at? {data : Bytes} {table : Table} {origin stride index : Nat}
    {c : Candidate} (h : Candidate.at? data table origin stride index = some c) :
    c.taggedIndex = if table = .gate then gateIndexBase + index else index := by
  simp only [Candidate.at?, bind, Option.bind_eq_some_iff] at h
  obtain ⟨start, -, assets, -, hc⟩ := h
  obtain rfl := Option.some.inj hc
  rfl

theorem map_taggedIndex {data : Bytes} {table : Table} {origin stride count : Nat}
    {records : List Candidate}
    (h : records.map some = (List.range count).map (Candidate.at? data table origin stride)) :
    records.map Candidate.taggedIndex =
      (List.range count).map fun i => if table = .gate then gateIndexBase + i else i := by
  have hlength : records.length = count := by simpa using congrArg List.length h
  apply List.ext_getElem
  · simp [hlength]
  · intro i hi hi'
    rw [List.length_map] at hi
    have hrecord : Candidate.at? data table origin stride i = some records[i] := by
      have hi'' := List.getElem_of_eq h (show i < (records.map some).length by simpa using hi)
      simpa using hi''.symm
    simp [Candidate.taggedIndex_of_at? hrecord]

theorem nodup_range_append_range' {count first count' : Nat} :
    (List.range count ++ List.range' first count').Nodup ↔ count ≤ first ∨ count' = 0 := by
  rw [List.nodup_append]
  constructor
  · rintro ⟨-, -, hapart⟩
    by_contra hmeet
    -- Otherwise the first number of the second row is one of the first row.
    exact hapart first (List.mem_range.mpr (by omega)) first
      (List.mem_range'_1.mpr (by omega)) rfl
  · intro hfits
    refine ⟨List.nodup_range, List.nodup_range', ?_⟩
    intro a ha b hb
    rw [List.mem_range] at ha
    rw [List.mem_range'_1] at hb
    omega

namespace Layout

variable {l : Layout}

theorem Lists.taggedIndices {data : Bytes} {r : Records} (h : l.Lists data r) :
    (r.games ++ r.gates).map Candidate.taggedIndex =
      List.range l.gameRecords.toNat ++ List.range' gateIndexBase l.gateRecords.toNat := by
  have hgames : r.games.map Candidate.taggedIndex = List.range l.gameRecords.toNat := by
    simpa using map_taggedIndex h.games
  have hgates : r.gates.map Candidate.taggedIndex =
      List.range' gateIndexBase l.gateRecords.toNat := by
    rw [map_taggedIndex h.gates, List.range'_eq_map_range]
    rfl
  rw [List.map_append, hgames, hgates]

theorem lists_of_readRecords (hl : l.Sound) {s : Source} {r : Records}
    (h : readRecords l s = .ok r) : l.Lists s.data r := by
  by_cases hs : l.span ≤ s.data.length
  · obtain ⟨r', hr', hlists⟩ := readRecords_of_le hl hs
    obtain rfl := Except.ok.inj (hr'.symm.trans h)
    exact hlists
  · obtain ⟨p, -, -, hfail⟩ := readRecords_of_lt (Nat.lt_of_not_le hs)
    rw [hfail] at h
    cases h

theorem gateRecords_nonneg (h : l.check = .ok ()) : 0 ≤ l.gateRecords := by
  unfold check at h
  split at h
  · cases h
  · omega

/-- No listing of an archive gives two of its records the same number. -/
def NumbersApart (l : Layout) : Prop :=
  ∀ (s : Source) (base : UInt32) (r : Report), (scan l s base).result = .ok r →
    (r.games.map Candidate.taggedIndex).Nodup

theorem numbersApart_iff_nodup (hl : l.check = .ok ()) :
    l.NumbersApart ↔
      (List.range l.gameRecords.toNat ++
        List.range' gateIndexBase l.gateRecords.toNat).Nodup := by
  constructor
  · intro hapart
    let zeros : Source := ⟨List.replicate l.span 0, none⟩
    obtain ⟨r, hlists, hscan⟩ := scan_of_le hl (s := zeros) (by simp [zeros])
    have hall : (r.report 0).games = r.games ++ r.gates := by
      apply List.filter_eq_self.mpr
      intro c _
      exact decide_eq_true (UInt32.zero_le)
    have hdistinct := hapart zeros 0 _ (hscan 0)
    rwa [hall, hlists.taggedIndices] at hdistinct
  · intro hrow s base r hr
    rw [result_scan hl] at hr
    split at hr
    · cases hr
    · next records hread =>
      obtain rfl := Except.ok.inj hr
      rw [← (lists_of_readRecords (sound_of_check hl) hread).taggedIndices] at hrow
      exact hrow.sublist (List.filter_sublist.map _)

end Layout

/-- The combined numbering tells the listed records of every archive apart if and only if the games
fit below the first number of the gates or there are no gates, as with the standard layout. -/
theorem combined_numbers_distinct :
    (∀ l : Layout, l.check = .ok () →
        (l.NumbersApart ↔ l.gameRecords ≤ 0x100 ∨ l.gateRecords = 0)) ∧
      Layout.standard.NumbersApart := by
  have hiff : ∀ l : Layout, l.check = .ok () →
      (l.NumbersApart ↔ l.gameRecords ≤ 0x100 ∨ l.gateRecords = 0) := by
    intro l hl
    have hgates := Layout.gateRecords_nonneg hl
    rw [Layout.numbersApart_iff_nodup hl, nodup_range_append_range', gateIndexBase]
    omega
  refine ⟨hiff, (hiff .standard rfl).mpr (.inl ?_)⟩
  decide

def crowdedLayout : Layout := ⟨0x101, 12, 0, 0, 16, 1, 12⟩

theorem combined_numbers_distinct_crowded :
    crowdedLayout.check = .ok () ∧ ¬ crowdedLayout.NumbersApart ∧
      ¬ sampleLayout.gateRecords = 0 ∧ sampleLayout.NumbersApart := by
  have hiff := combined_numbers_distinct.1
  refine ⟨rfl, ?_, by decide, (hiff sampleLayout rfl).mpr (.inl (by decide))⟩
  rw [hiff crowdedLayout rfl]
  decide

end FlowPack.Archive
