import FlowPack.Disk.Path
import Mathlib.Algebra.Ring.Nat
import Mathlib.Data.List.Basic

namespace FlowPack.Path

theorem pieces_ne_nil (path : List Char) : pieces path ≠ [] := by
  cases path with
  | nil => simp [pieces]
  | cons c cs =>
    rw [pieces]
    split
    · simp
    · split <;> simp

theorem pieces_append_slash (front back : List Char) :
    pieces (front ++ '/' :: back) = pieces front ++ pieces back := by
  induction front with
  | nil => rfl
  | cons c cs ih =>
    rw [List.cons_append, pieces, pieces, ih]
    by_cases hc : c = '/'
    · rw [if_pos hc, if_pos hc, List.cons_append]
    · rw [if_neg hc, if_neg hc]
      cases hp : pieces cs with
      | nil => exact absurd hp (pieces_ne_nil cs)
      | cons p ps => rfl

theorem pieces_of_no_slash {name : List Char} (h : '/' ∉ name) : pieces name = [name] := by
  induction name with
  | nil => rfl
  | cons c cs ih =>
    obtain ⟨hc, hcs⟩ := not_or.mp (mt List.mem_cons.mpr h)
    rw [pieces, if_neg (Ne.symm hc), ih hcs]

theorem slash_not_mem_of_mem_pieces {path : List Char} : ∀ p ∈ pieces path, '/' ∉ p := by
  induction path with
  | nil => simp [pieces]
  | cons c cs ih =>
    rw [pieces]
    by_cases hc : c = '/'
    · rw [if_pos hc]
      exact List.forall_mem_cons.mpr ⟨List.not_mem_nil, ih⟩
    · rw [if_neg hc]
      cases hp : pieces cs with
      | nil => exact absurd hp (pieces_ne_nil cs)
      | cons p ps =>
        rw [hp, List.forall_mem_cons] at ih
        exact List.forall_mem_cons.mpr ⟨mt List.mem_cons.mp (not_or.mpr ⟨Ne.symm hc, ih.1⟩), ih.2⟩

theorem pieces_glue {ps : List Name} (hne : ps ≠ []) (h : ∀ p ∈ ps, '/' ∉ p) :
    pieces (glue ps) = ps := by
  induction ps with
  | nil => exact absurd rfl hne
  | cons p ps ih =>
    rw [List.forall_mem_cons] at h
    cases ps with
    | nil => exact pieces_of_no_slash h.1
    | cons q ps =>
      rw [glue, pieces_append_slash, pieces_of_no_slash h.1, ih (by simp) h.2]
      · rfl
      · simp

@[simp] theorem isRooted_cons (c : Char) (cs : List Char) : isRooted (c :: cs) = (c == '/') := by
  unfold isRooted
  split
  · next h => rw [(List.cons.inj h).1]; rfl
  · next h => exact (beq_false_of_ne fun hc => h cs (by rw [hc])).symm

theorem isRooted_append {front : List Char} (h : front ≠ []) (back : List Char) :
    isRooted (front ++ back) = isRooted front := by
  obtain ⟨c, cs, rfl⟩ := List.exists_cons_of_ne_nil h
  rw [List.cons_append, isRooted_cons, isRooted_cons]

theorem isRooted_eq_false {path : List Char} (h : '/' ∉ path) : isRooted path = false := by
  cases path with
  | nil => rfl
  | cons c cs =>
    rw [isRooted_cons]
    exact beq_false_of_ne fun hc => h (by rw [hc]; exact List.mem_cons_self)

/-- The names that a path leads to, the last one first. -/
def stack (path : List Char) : List Name := (pieces path).foldl (pushPiece (isRooted path)) []

/-- A stack that cleaning leaves as it is: names that go up lie at its bottom, and nowhere in a
rooted path. -/
def Settled (rooted : Bool) : List Name → Prop
  | [] => True
  | p :: rest => (p ≠ [] ∧ p ≠ ['.'] ∧ '/' ∉ p) ∧
    (p = ['.', '.'] → rooted = false ∧ ∀ q ∈ rest, q = ['.', '.']) ∧ Settled rooted rest

section Settled

variable {rooted : Bool} {s : List Name} {p : Name}

theorem settled_pushPiece (hs : Settled rooted s) (hp : '/' ∉ p) :
    Settled rooted (pushPiece rooted s p) := by
  unfold pushPiece
  by_cases hskip : p = [] ∨ p = ['.']
  · rwa [if_pos hskip]
  obtain ⟨hnil, hdot⟩ := not_or.mp hskip
  rw [if_neg hskip]
  by_cases hup : p = ['.', '.']
  · rw [if_pos hup]
    cases s with
    | nil =>
      cases rooted with
      | true => exact hs
      | false => exact ⟨⟨hnil, hdot, hp⟩, fun _ => ⟨rfl, by simp⟩, trivial⟩
    | cons top rest =>
      obtain ⟨-, htop, hrest⟩ := id hs
      dsimp only
      by_cases ht : top = ['.', '.']
      · obtain ⟨hr, hall⟩ := htop ht
        rw [if_pos ht]
        exact ⟨⟨hnil, hdot, hp⟩, fun _ => ⟨hr, List.forall_mem_cons.mpr ⟨ht, hall⟩⟩, hs⟩
      · rwa [if_neg ht]
  · rw [if_neg hup]
    exact ⟨⟨hnil, hdot, hp⟩, fun h => absurd h hup, hs⟩

theorem pushPiece_of_name (hskip : ¬(p = [] ∨ p = ['.'])) (hup : p ≠ ['.', '.']) :
    pushPiece rooted s p = p :: s := by
  unfold pushPiece
  rw [if_neg hskip, if_neg hup]

theorem pushPiece_of_settled (h : Settled rooted (p :: s)) : pushPiece rooted s p = p :: s := by
  obtain ⟨⟨hnil, hdot, -⟩, hup, -⟩ := h
  by_cases hp : p = ['.', '.']
  · obtain ⟨rfl, hall⟩ := hup hp
    subst hp
    cases s with
    | nil => rfl
    | cons top rest => rw [hall top List.mem_cons_self]; rfl
  · exact pushPiece_of_name (not_or.mpr ⟨hnil, hdot⟩) hp

theorem settled_of_append {t : List Name} (h : Settled rooted (t ++ s)) : Settled rooted s := by
  induction t with
  | nil => exact h
  | cons q t ih => exact ih h.2.2

theorem foldl_pushPiece_of_settled {ps : List Name} (h : Settled rooted (ps.reverse ++ s)) :
    ps.foldl (pushPiece rooted) s = ps.reverse ++ s := by
  induction ps generalizing s with
  | nil => rfl
  | cons p ps ih =>
    rw [List.reverse_cons, List.append_assoc, List.singleton_append] at h ⊢
    rw [List.foldl_cons, pushPiece_of_settled (settled_of_append h), ih h]

theorem settled_foldl_pushPiece {ps : List Name} (hs : Settled rooted s)
    (h : ∀ p ∈ ps, '/' ∉ p) : Settled rooted (ps.foldl (pushPiece rooted) s) := by
  induction ps generalizing s with
  | nil => exact hs
  | cons p ps ih =>
    rw [List.forall_mem_cons] at h
    exact ih (settled_pushPiece hs h.1) h.2

theorem Settled.forall_mem (hs : Settled rooted s) : ∀ p ∈ s, p ≠ [] ∧ p ≠ ['.'] ∧ '/' ∉ p := by
  induction s with
  | nil => simp
  | cons p s ih => exact List.forall_mem_cons.mpr ⟨hs.1, ih hs.2.2⟩

end Settled

theorem settled_stack (path : List Char) : Settled (isRooted path) (stack path) :=
  settled_foldl_pushPiece trivial slash_not_mem_of_mem_pieces

theorem cleanPieces_eq (path : List Char) : cleanPieces path = (stack path).reverse := rfl

theorem foldl_pieces_glue {rooted : Bool} {ps : List Name} (h : ∀ p ∈ ps, '/' ∉ p) :
    (pieces (glue ps)).foldl (pushPiece rooted) [] = ps.foldl (pushPiece rooted) [] := by
  by_cases hps : ps = []
  · subst hps
    rfl
  · rw [pieces_glue hps h]

theorem clean_spec (path : List Char) :
    isRooted (clean path) = isRooted path ∧ stack (clean path) = stack path := by
  have hsettled := settled_stack path
  have hslash : ∀ p ∈ cleanPieces path, '/' ∉ p := by
    intro p hp
    exact (hsettled.forall_mem p (List.mem_reverse.mp hp)).2.2
  have hfold : (cleanPieces path).foldl (pushPiece (isRooted path)) [] = stack path := by
    rw [foldl_pushPiece_of_settled] <;> rw [cleanPieces_eq, List.reverse_reverse, List.append_nil]
    exact hsettled
  cases hr : isRooted path with
  | true =>
    have hc : clean path = '/' :: glue (cleanPieces path) := by rw [clean, hr]
    rw [hr] at hfold
    refine ⟨by rw [hc]; rfl, ?_⟩
    rw [hc]
    exact (foldl_pieces_glue hslash).trans hfold
  | false =>
    rw [hr] at hfold
    cases hps : cleanPieces path with
    | nil =>
      -- An empty stack is spelled as a dot, which leads nowhere.
      have hc : clean path = ['.'] := by rw [clean, hr, hps]
      have hnil : stack path = [] := by rw [← hfold, hps]; rfl
      rw [hc, hnil]
      exact ⟨rfl, rfl⟩
    | cons p ps =>
      have hc : clean path = glue (p :: ps) := by rw [clean, hr, hps]
      have hp := hsettled.forall_mem p (by rw [← List.mem_reverse, ← cleanPieces_eq, hps]; simp)
      have hroot : isRooted (glue (p :: ps)) = false := by
        have hfirst : glue (p :: ps) = p ++ (glue (p :: ps)).drop p.length := by
          cases ps <;> simp [glue]
        rw [hfirst, isRooted_append hp.1, isRooted_eq_false hp.2.2]
      rw [hps] at hslash hfold
      refine ⟨by rw [hc, hroot], ?_⟩
      rw [hc, stack, hroot]
      exact (foldl_pieces_glue hslash).trans hfold

theorem clean_congr {path other : List Char} (hroot : isRooted path = isRooted other)
    (hstack : stack path = stack other) : clean path = clean other := by
  rw [clean, clean, cleanPieces_eq, cleanPieces_eq, hroot, hstack]

theorem clean_clean (path : List Char) : clean (clean path) = clean path := by
  obtain ⟨hroot, hstack⟩ := clean_spec path
  exact clean_congr hroot hstack

theorem clean_ne_nil (path : List Char) : clean path ≠ [] := by
  intro h
  have hspec := clean_spec path
  rw [h] at hspec
  have hstack : stack path = [] := hspec.2.symm
  have hroot : isRooted path = false := hspec.1.symm
  rw [clean, hroot, cleanPieces_eq, hstack] at h
  cases h

theorem stack_append_slash {front : List Char} (h : front ≠ []) (back : List Char) :
    stack (front ++ '/' :: back) =
      (pieces back).foldl (pushPiece (isRooted front)) (stack front) := by
  rw [stack, pieces_append_slash, isRooted_append h, List.foldl_append]
  rfl

def lead (path : List Char) : List Char := (path.reverse.dropWhile (· ≠ '/')).reverse

def final (path : List Char) : List Char := (path.reverse.takeWhile (· ≠ '/')).reverse

theorem lead_append_final (path : List Char) : lead path ++ final path = path := by
  rw [lead, final, ← List.reverse_append, List.takeWhile_append_dropWhile, List.reverse_reverse]

theorem slash_not_mem_takeWhile (cs : List Char) : '/' ∉ cs.takeWhile (· ≠ '/') := by
  intro h
  simpa using List.all_eq_true.mp List.all_takeWhile '/' h

theorem slash_not_mem_final (path : List Char) : '/' ∉ final path := by
  rw [final, List.mem_reverse]
  exact slash_not_mem_takeWhile path.reverse

theorem lead_cases (path : List Char) : lead path = [] ∨ ∃ front, lead path = front ++ ['/'] := by
  unfold lead
  cases hd : path.reverse.dropWhile (· ≠ '/') with
  | nil => exact .inl rfl
  | cons c cs =>
    have hc := List.head?_dropWhile_not (· ≠ '/') path.reverse
    rw [hd] at hc
    refine .inr ⟨cs.reverse, ?_⟩
    rw [List.reverse_cons, show c = '/' by simpa using hc]

theorem isRooted_lead (path : List Char) : isRooted (lead path) = isRooted path := by
  have hpath := lead_append_final path
  by_cases hl : lead path = []
  · rw [hl, List.nil_append] at hpath
    rw [hl, ← hpath, isRooted_eq_false (slash_not_mem_final path)]
    rfl
  · rw [← hpath, isRooted_append hl, hpath]

theorem stack_eq (path : List Char) :
    stack path = pushPiece (isRooted path) (stack (lead path)) (final path) := by
  have hpath := lead_append_final path
  have hfinal := pieces_of_no_slash (slash_not_mem_final path)
  rcases lead_cases path with hl | ⟨front, hl⟩
  · have hp : pieces path = [final path] := by
      rw [hl, List.nil_append] at hpath
      rw [← hfinal, hpath]
    rw [hl, stack, hp]
    rfl
  · have hp : pieces path = pieces front ++ [final path] := by
      rw [hl, List.append_assoc, List.singleton_append] at hpath
      rw [← hfinal, ← pieces_append_slash, hpath]
    have hs : stack (lead path) = (pieces front).foldl (pushPiece (isRooted path)) [] := by
      rw [stack, isRooted_lead, hl, pieces_append_slash, List.foldl_append]
      rfl
    rw [hs, stack, hp, List.foldl_append]
    rfl

theorem stack_lead {path : List Char} {name : Name} {s : List Name} (hfinal : final path = name)
    (hpush : pushPiece (isRooted path) (stack (lead path)) name = name :: stack (lead path))
    (hstack : stack path = name :: s) : stack (lead path) = s := by
  have hlast := stack_eq path
  rw [hfinal, hpush, hstack] at hlast
  exact (List.cons.inj hlast).2.symm

theorem base_eq_final {path : List Char} (h : final path ≠ []) : base path = final path := by
  have hne : path ≠ [] := by
    rintro rfl
    exact h rfl
  have htake : path.reverse.takeWhile (· ≠ '/') = (final path).reverse := by
    rw [final, List.reverse_reverse]
  have hsplit : path.reverse = (final path).reverse ++ path.reverse.dropWhile (· ≠ '/') := by
    rw [← htake, List.takeWhile_append_dropWhile]
  obtain ⟨c, cs, hc⟩ := List.exists_cons_of_ne_nil (mt List.reverse_eq_nil_iff.mp h)
  have hslash : c ≠ '/' := by
    rintro rfl
    exact slash_not_mem_final path (List.mem_reverse.mp (hc ▸ List.mem_cons_self))
  -- The path does not end in a slash, so there are none to pass over.
  have hdrop : path.reverse.dropWhile (· = '/') = path.reverse := by
    rw [hsplit, hc, List.cons_append, List.dropWhile_cons_of_neg (by simpa using hslash)]
  rw [base, if_neg hne, hdrop, htake, hc]
  dsimp only
  rw [← hc, List.reverse_reverse]

theorem base_ne_nil (path : List Char) : base path ≠ [] := by
  unfold base
  split
  · exact List.cons_ne_nil _ _
  · split
    · exact List.cons_ne_nil _ _
    · next name hname => simpa using hname

theorem slash_not_mem_base {path : List Char} (h : base path ≠ ['/']) : '/' ∉ base path := by
  unfold base at h ⊢
  split
  · decide
  · next hne =>
    rw [if_neg hne] at h
    split
    · next hnil => exact absurd (by rw [hnil]) h
    · next name hname =>
      rw [List.mem_reverse]
      exact slash_not_mem_takeWhile _

def tempName (path : List Char) : Name :=
  if base path = ['/'] then ".tmp".toList else '.' :: base path ++ ".tmp".toList

theorem four_le_length_tempName (path : List Char) : 4 ≤ (tempName path).length := by
  unfold tempName
  split <;> simp

theorem tempName_ne_final (path : List Char) : tempName path ≠ final path := by
  by_cases hf : final path = []
  · intro h
    have hlen := four_le_length_tempName path
    rw [h, hf] at hlen
    cases hlen
  · have hslash := slash_not_mem_final path
    rw [tempName, base_eq_final hf]
    split
    · next hb =>
      rw [hb] at hslash
      exact absurd List.mem_cons_self hslash
    · intro h
      have hlen := congrArg List.length h
      simp only [List.cons_append, List.length_cons, List.length_append] at hlen
      omega

theorem pushPiece_tempName (rooted : Bool) (s : List Name) (path : List Char) :
    pushPiece rooted s (tempName path) = tempName path :: s := by
  have hlen := four_le_length_tempName path
  have hne : ∀ p : Name, p.length < 4 → tempName path ≠ p := by
    rintro p hp rfl
    omega
  exact pushPiece_of_name (not_or.mpr ⟨hne _ (by decide), hne _ (by decide)⟩) (hne _ (by decide))

theorem temp_spec (path : List Char) :
    isRooted (temp path) = isRooted path ∧
      stack (temp path) = tempName path :: stack (lead path) := by
  have hdir := clean_spec (lead path)
  have hne : dir path ≠ [] := clean_ne_nil _
  have hjoin : temp path = clean (dir path ++ '/' :: ('.' :: base path ++ ".tmp".toList)) := by
    rw [temp, join, List.filter_cons_of_pos (by simpa using hne), List.filter_cons_of_pos rfl]
    rfl
  have hclean := clean_spec (dir path ++ '/' :: ('.' :: base path ++ ".tmp".toList))
  rw [hjoin, hclean.1, hclean.2, isRooted_append hne, stack_append_slash hne]
  rw [show isRooted (dir path) = isRooted path from hdir.1.trans (isRooted_lead path),
    show stack (dir path) = stack (lead path) from hdir.2]
  refine ⟨rfl, ?_⟩
  have hpush := pushPiece_tempName (isRooted path) (stack (lead path)) path
  by_cases hb : base path = ['/']
  · rw [tempName, if_pos hb] at hpush ⊢
    rw [hb]
    exact hpush
  · rw [tempName, if_neg hb] at hpush ⊢
    rw [pieces_of_no_slash]
    · exact hpush
    · simpa using slash_not_mem_base hb

/-- The temporary file does not lie where the path leads. -/
theorem stack_temp_ne (path : List Char) : stack (temp path) ≠ stack path := by
  have hup : tempName path ≠ ['.', '.'] := by
    intro h
    have hlen := four_le_length_tempName path
    rw [h] at hlen
    exact absurd hlen (by decide)
  rw [(temp_spec path).2, stack_eq path]
  by_cases hskip : final path = [] ∨ final path = ['.']
  · rw [pushPiece.eq_def, if_pos hskip]
    exact List.cons_ne_self _ _
  by_cases hfinal : final path = ['.', '.']
  -- Going up leaves a shorter stack or one with dots on top.
  · rw [hfinal]
    cases stack (lead path) with
    | nil => cases isRooted path <;> simp [pushPiece, hup]
    | cons top rest =>
      by_cases ht : top = ['.', '.']
      · simp [pushPiece, ht, hup]
      · have hpop : pushPiece (isRooted path) (top :: rest) ['.', '.'] = rest := by
          simp [pushPiece, ht]
        intro h
        have hlen := congrArg List.length h
        rw [hpop, List.length_cons, List.length_cons] at hlen
        omega
  · rw [pushPiece_of_name hskip hfinal]
    intro h
    exact tempName_ne_final path (List.cons.inj h).1

/-- A name that cleaning leaves where it is. -/
structure IsName (name : Name) : Prop where
  ne_nil : name ≠ []
  ne_dot : name ≠ ['.']
  ne_up : name ≠ ['.', '.']
  no_slash : '/' ∉ name

theorem IsName.pushPiece {name : Name} (h : IsName name) (rooted : Bool) (s : List Name) :
    pushPiece rooted s name = name :: s :=
  pushPiece_of_name (not_or.mpr ⟨h.ne_nil, h.ne_dot⟩) h.ne_up

theorem IsName.temp {name : Name} (h : IsName name) : IsName ('.' :: name ++ ".tmp".toList) where
  ne_nil := by simp
  ne_dot := by simp
  ne_up := by simp [List.append_eq_cons_iff]
  no_slash := by simpa using h.no_slash

theorem glue_concat {ps : List Name} (h : ps ≠ []) (name : Name) :
    glue (ps ++ [name]) = glue ps ++ '/' :: name := by
  induction ps with
  | nil => exact absurd rfl h
  | cons p ps ih =>
    cases ps with
    | nil => rfl
    | cons q ps =>
      have hrest := ih (by simp)
      calc
        glue (p :: q :: ps ++ [name]) = p ++ '/' :: glue (q :: ps ++ [name]) := rfl
        _ = p ++ '/' :: (glue (q :: ps) ++ '/' :: name) := by rw [hrest]
        _ = glue (p :: q :: ps) ++ '/' :: name := by simp [glue]

theorem final_append {front : List Char} (hfront : front = [] ∨ ∃ x, front = x ++ ['/'])
    {name : Name} (h : '/' ∉ name) : final (front ++ name) = name := by
  have hall : ∀ c ∈ name.reverse, decide (c ≠ '/') = true := by
    intro c hc
    apply decide_eq_true
    rintro rfl
    exact h (List.mem_reverse.mp hc)
  have hstop : front.reverse.takeWhile (· ≠ '/') = [] := by
    rcases hfront with rfl | ⟨x, rfl⟩
    · rfl
    · rw [List.reverse_append]
      exact List.takeWhile_cons_of_neg (by simp)
  rw [final, List.reverse_append, List.takeWhile_append_of_pos hall, hstop, List.append_nil,
    List.reverse_reverse]

section Clean

variable {path : List Char} {name : Name} {s : List Name} (h : stack path = name :: s)

include h

theorem clean_eq :
    clean path = (if isRooted path then ['/'] else []) ++ glue (s.reverse ++ [name]) := by
  have hpieces : cleanPieces path = s.reverse ++ [name] := by
    rw [cleanPieces_eq, h, List.reverse_cons]
  rw [clean, hpieces]
  cases isRooted path with
  | true => rfl
  | false => split <;> simp_all

theorem pieces_clean :
    pieces (clean path) = (if isRooted path then [[]] else []) ++ (s.reverse ++ [name]) := by
  have hglue : pieces (glue (s.reverse ++ [name])) = s.reverse ++ [name] := by
    apply pieces_glue (by simp)
    intro p hp
    exact ((settled_stack path).forall_mem p (by simpa [h, or_comm] using hp)).2.2
  rw [clean_eq h]
  cases isRooted path with
  | true => exact congrArg _ hglue
  | false => exact hglue

theorem final_clean : final (clean path) = name := by
  have hslash : '/' ∉ name :=
    ((settled_stack path).forall_mem name (by rw [h]; exact List.mem_cons_self)).2.2
  rw [clean_eq h]
  by_cases hs : s.reverse = []
  · rw [hs, List.nil_append, glue]
    apply final_append _ hslash
    cases isRooted path with
    | true => exact .inr ⟨[], rfl⟩
    | false => exact .inl rfl
  · rw [glue_concat hs, List.append_cons, ← List.append_assoc, ← List.append_assoc]
    exact final_append (.inr ⟨_, rfl⟩) hslash

end Clean

theorem clean_join {parts : List (List Char)} (h : stack (join parts) ≠ []) :
    clean (join parts) = join parts := by
  unfold join at h ⊢
  split
  · next hnil =>
    rw [hnil] at h
    exact absurd rfl h
  · exact clean_clean _

theorem clean_temp (path : List Char) : clean (temp path) = temp path := by
  apply clean_join
  change stack (temp path) ≠ []
  rw [(temp_spec path).2]
  exact List.cons_ne_nil _ _

section Inside

variable {directory : List Char} {name : Name} (hd : directory ≠ []) (hn : IsName name)

include hd hn

theorem join_eq : join [directory, name] = clean (directory ++ '/' :: name) := by
  rw [join, List.filter_cons_of_pos (by simpa using hd),
    List.filter_cons_of_pos (by simpa using hn.ne_nil)]
  rfl

theorem stack_join_aux : stack (directory ++ '/' :: name) = name :: stack directory := by
  rw [stack_append_slash hd, pieces_of_no_slash hn.no_slash]
  exact hn.pushPiece _ _

theorem join_spec :
    isRooted (join [directory, name]) = isRooted directory ∧
      stack (join [directory, name]) = name :: stack directory := by
  have hclean := clean_spec (directory ++ '/' :: name)
  rw [join_eq hd hn, hclean.1, hclean.2, isRooted_append hd, stack_join_aux hd hn]
  exact ⟨rfl, rfl⟩

theorem temp_join_spec :
    isRooted (temp (join [directory, name])) = isRooted directory ∧
      stack (temp (join [directory, name])) =
        ('.' :: name ++ ".tmp".toList) :: stack directory := by
  obtain ⟨hroot, hstack⟩ := join_spec hd hn
  have hfinal : final (join [directory, name]) = name := by
    rw [join_eq hd hn]
    exact final_clean (stack_join_aux hd hn)
  have hbase : base (join [directory, name]) = name := by
    rw [base_eq_final (by rw [hfinal]; exact hn.ne_nil), hfinal]
  have hname : name ≠ ['/'] := by
    rintro rfl
    exact hn.no_slash List.mem_cons_self
  have hlead : stack (lead (join [directory, name])) = stack directory :=
    stack_lead hfinal (hn.pushPiece _ _) hstack
  rw [(temp_spec _).1, (temp_spec _).2, hroot, hlead, tempName, hbase, if_neg hname]
  exact ⟨rfl, rfl⟩

end Inside

theorem final_temp (path : List Char) : final (temp path) = tempName path := by
  rw [← clean_temp]
  exact final_clean (temp_spec path).2

theorem base_temp (path : List Char) : base (temp path) = tempName path := by
  have hne : tempName path ≠ [] := by
    intro h
    have hlen := four_le_length_tempName path
    rw [h] at hlen
    exact absurd hlen (by decide)
  rw [base_eq_final] <;> rw [final_temp]
  exact hne

theorem dir_temp (path : List Char) : dir (temp path) = dir path := by
  obtain ⟨hroot, hstack⟩ := temp_spec path
  have hlead : stack (lead (temp path)) = stack (lead path) :=
    stack_lead (final_temp path) (pushPiece_tempName _ _ path) hstack
  apply clean_congr _ hlead
  rw [isRooted_lead, isRooted_lead, hroot]

theorem tempName_eq_iff {path other : List Char} :
    tempName path = tempName other ↔ base path = base other := by
  have hlen : ∀ p : List Char, ".tmp".toList ≠ '.' :: base p ++ ".tmp".toList := by
    intro p h
    have hp := List.length_pos_of_ne_nil (base_ne_nil p)
    have hl := congrArg List.length h
    rw [List.length_append, List.length_cons] at hl
    omega
  constructor
  · intro h
    unfold tempName at h
    split at h <;> split at h
    · next hp hq => rw [hp, hq]
    · exact absurd h (hlen other)
    · exact absurd h.symm (hlen path)
    · exact (List.cons.inj (List.append_cancel_right h)).2
  · intro h
    rw [tempName, tempName, h]

theorem temp_eq_temp_iff {path other : List Char} :
    temp path = temp other ↔ dir path = dir other ∧ base path = base other := by
  constructor
  · intro h
    refine ⟨?_, tempName_eq_iff.mp ?_⟩
    · rw [← dir_temp path, h, dir_temp]
    · rw [← base_temp, h, base_temp]
  · rintro ⟨hdir, hbase⟩
    rw [temp, temp, hdir, hbase]

/-- The temporary file of a path lies in the directory of the path, under the last name of the path
between a dot and an ending. Its path is clean, so paths share it only if they share both. Only
the slash and the dot have a meaning here: the characters may as well stand for bytes. -/
theorem temp_is_sibling {path : List Char} (h : base path ≠ ['/']) :
    dir (temp path) = dir path ∧ base (temp path) = '.' :: base path ++ ".tmp".toList ∧
      clean (temp path) = temp path ∧
      ∀ other, temp path = temp other ↔ dir path = dir other ∧ base path = base other := by
  refine ⟨dir_temp path, ?_, clean_temp path, fun other => temp_eq_temp_iff⟩
  rw [base_temp, tempName, if_neg h]

def winding : List Char := "../x//./y/../z/".toList

theorem temp_is_sibling_winding :
    base winding ≠ ['/'] ∧ dir (temp winding) = "../x/z".toList ∧
      base (temp winding) = ".z.tmp".toList ∧ clean (temp winding) = temp winding ∧
      temp winding = temp "../x/z/z".toList ∧ temp winding ≠ temp "../x/z".toList := by
  have hbase : base winding ≠ ['/'] := by decide
  obtain ⟨hdir, hname, hclean, hiff⟩ := temp_is_sibling hbase
  refine ⟨hbase, hdir.trans (by decide), hname.trans (by decide), hclean, ?_, ?_⟩
  · exact (hiff _).mpr (by decide)
  · rw [Ne, hiff]
    decide

end FlowPack.Path
