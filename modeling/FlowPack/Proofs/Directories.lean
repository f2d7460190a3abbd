import FlowPack.Proofs.Disks

namespace FlowPack.Disk

theorem exists_eq_parent_append {path : List Char} (h : parent path ≠ []) :
    ∃ rest, path = parent path ++ '/' :: rest := by
  unfold parent at h ⊢
  generalize hback : (path.reverse.dropWhile (· = '/')).dropWhile (· ≠ '/') = back at h ⊢
  obtain ⟨passed, hpassed⟩ : back <:+ path.reverse :=
    hback ▸ (List.dropWhile_suffix _).trans (List.dropWhile_suffix _)
  cases back with
  | nil => exact absurd rfl h
  | cons c cs =>
    have hc := List.head?_dropWhile_not (· ≠ '/') (path.reverse.dropWhile (· = '/'))
    rw [hback] at hc
    obtain rfl : c = '/' := by simpa using hc
    refine ⟨passed.reverse, ?_⟩
    have hpath := congrArg List.reverse hpassed
    rw [List.reverse_reverse, List.reverse_append, List.reverse_cons] at hpath
    rw [← hpath]
    simp

theorem stepsFrom_append (here : Location) (names more : List String) :
    stepsFrom here (names ++ more) =
      stepsFrom here names ++ stepsFrom (names.foldl stepTo here) more := by
  induction names generalizing here with
  | nil => rfl
  | cons name names ih => exact congrArg _ (ih _)

theorem foldl_stepTo_mem_stepsFrom (here : Location) {names : List String} (h : names ≠ []) :
    names.foldl stepTo here ∈ stepsFrom here names := by
  induction names generalizing here with
  | nil => exact absurd rfl h
  | cons name names ih =>
    cases names with
    | nil => exact List.mem_cons_self
    | cons next names => exact List.mem_cons_of_mem _ (ih _ (by simp))

theorem steps_parent_subset {path : List Char} (h : parent path ≠ []) :
    steps (String.ofList (parent path)) ⊆ steps (String.ofList path) := by
  obtain ⟨rest, hpath⟩ := exists_eq_parent_append h
  generalize parent path = front at h hpath
  subst hpath
  have hstart : startOf (String.ofList (front ++ '/' :: rest)) = startOf (String.ofList front) := by
    simp only [startOf, String.toList_ofList, Path.isRooted_append h]
  have hnames : (namesOf (String.ofList (front ++ '/' :: rest))).1 =
      (namesOf (String.ofList front)).1 ++ (namesOf (String.ofList rest)).1 := by
    simp only [namesOf, String.toList_ofList, Path.pieces_append_slash, List.filter_append,
      List.map_append]
  rw [steps, steps, hstart, hnames, stepsFrom_append]
  exact List.subset_append_left _ _

theorem place_mem_steps {d : Disk} {path : String} (h : d.get? (place path) = none) :
    place path ∈ steps path := by
  rw [place_eq_foldl] at h ⊢
  apply foldl_stepTo_mem_stepsFrom
  intro hnames
  rw [hnames, List.foldl_nil, startOf, get?, if_pos] at h
  · cases h
  · split <;> rfl

/-- Some of the locations have become directories, and nothing else has changed. -/
def Grown (ls : List Location) (d d' : Disk) : Prop :=
  ∀ l, d'.get? l = d.get? l ∨ l ∈ ls ∧ d.get? l = none ∧ d'.get? l = some .dir

namespace Grown

variable {ls ls' : List Location} {d d₁ d₂ : Disk}

theorem refl (ls : List Location) (d : Disk) : Grown ls d d := fun _ => .inl rfl

theorem mono (h : Grown ls d d₁) (hsub : ls ⊆ ls') : Grown ls' d d₁ := by
  intro l
  rcases h l with hsame | ⟨hl, hnew⟩
  · exact .inl hsame
  · exact .inr ⟨hsub hl, hnew⟩

theorem trans (h₁ : Grown ls d d₁) (h₂ : Grown ls d₁ d₂) : Grown ls d d₂ := by
  intro l
  rcases h₁ l with hsame₁ | ⟨hl, hnone, hdir⟩
  · rw [← hsame₁]
    exact h₂ l
  · -- A directory that was made first is there to stay.
    rcases h₂ l with hsame₂ | ⟨-, hnone₂, -⟩
    · exact .inr ⟨hl, hnone, hsame₂.trans hdir⟩
    · rw [hdir] at hnone₂
      cases hnone₂

theorem dir (h : Grown ls d d₁) {l : Location} (hl : d.get? l = some .dir) :
    d₁.get? l = some .dir := by
  rcases h l with hsame | ⟨-, -, hdir⟩
  · rw [hsame, hl]
  · exact hdir

end Grown

variable {d d' : Disk}

theorem makeDir_eq_ok {path : String} (h : d.makeDir path = .ok d') :
    d.Reaches path ∧ d.get? (place path) = none ∧ d' = d.set (place path) .dir := by
  unfold makeDir at h
  split at h
  · cases h
  next l hr =>
  obtain ⟨rfl, hreach, -⟩ := resolve_eq_ok_iff.mp hr
  split at h
  · cases h
  · next hnone _ => exact ⟨hreach, hnone, (Except.ok.inj h).symm⟩
  · cases h
  · cases h

theorem makeDir_grown {path : String} (h : d.makeDir path = .ok d') :
    Grown (steps path) d d' ∧ d'.node? path = some .dir := by
  obtain ⟨hreach, hnone, rfl⟩ := makeDir_eq_ok h
  have hset : (d.set (place path) .dir).get? (place path) = some .dir :=
    get?_set_self (by simp [hnone])
  have hgrown : Grown (steps path) d (d.set (place path) .dir) := by
    intro l
    by_cases hl : l = place path
    · subst hl
      exact .inr ⟨place_mem_steps hnone, hnone, hset⟩
    · exact .inl (get?_set_of_ne hl)
  exact ⟨hgrown, node?_eq_some_iff.mpr ⟨hreach.mono fun _ => hgrown.dir, hset, fun _ => rfl⟩⟩

def resulting : Except (FileError × Disk) Disk → Disk
  | .ok d => d
  | .error (_, d) => d

/-- What making directories can come to. -/
structure MadeDirs (path : String) (d : Disk) (r : Except (FileError × Disk) Disk) : Prop where
  grown : Grown (steps path) d (resulting r)
  node : ∀ d', r = .ok d' → d'.node? path = some .dir

theorem node?_of_find {path : String} {l : Location} {n : Node} (h : d.find path = .ok (l, n)) :
    d.node? path = some n := by
  rw [node?, h]

theorem makeDirs_made (d : Disk) (path : List Char) :
    MadeDirs (String.ofList path) d (d.makeDirs path) := by
  rw [makeDirs]
  dsimp only
  split
  · next hf => exact ⟨.refl _ _, fun d' hd => Except.ok.inj hd ▸ node?_of_find hf⟩
  · exact ⟨.refl _ _, fun d' hd => by cases hd⟩
  · -- The directories above come first; what was made there stays in any case.
    have habove : Grown (steps (String.ofList path)) d
        (resulting (if _ : parent path ≠ [] then d.makeDirs (parent path) else .ok d)) := by
      split
      · next h => exact (makeDirs_made d (parent path)).grown.mono (steps_parent_subset h)
      · exact .refl _ _
    split
    · next e he =>
      rw [he] at habove
      exact ⟨habove, fun d' hd => by cases hd⟩
    · next d₁ hd₁ =>
      rw [hd₁] at habove
      split
      · next d₂ hmake =>
        obtain ⟨hgrown, hnode⟩ := makeDir_grown hmake
        exact ⟨habove.trans hgrown, fun d' hd => Except.ok.inj hd ▸ hnode⟩
      · split
        · next hf => exact ⟨habove, fun d' hd => Except.ok.inj hd ▸ node?_of_find hf⟩
        · exact ⟨habove, fun d' hd => by cases hd⟩
termination_by path.length
decreasing_by
  rename_i h
  apply length_parent_lt
  rintro rfl
  exact h rfl

/-- Everything above a location is a directory. -/
def Backed (d : Disk) (l : Location) : Prop := ∀ m, m <+: l → m ≠ l → d.get? m = some .dir

theorem Backed.upward {l m : Location} (h : d.Backed l) (hm : m <+: l) : d.Backed m := by
  intro k hk hne
  apply h k (hk.trans hm)
  rintro rfl
  exact hne (hk.eq_of_length_le hm.length_le)

theorem Backed.concat {l : Location} (h : d.Backed l) (hl : d.get? l = some .dir) (name : String) :
    d.Backed (l ++ [name]) := by
  intro m hm hne
  rcases List.prefix_concat_iff.mp hm with rfl | hm
  · exact absurd rfl hne
  · by_cases hml : m = l
    · rw [hml, hl]
    · exact h m hm hml

theorem Backed.stepTo {l : Location} (h : d.Backed l) (hl : d.get? l = some .dir)
    (name : String) : d.Backed (stepTo l name) := by
  unfold Disk.stepTo
  split
  · unfold above
    split
    · next hnil =>
      rw [List.getLast?_eq_none_iff.mp hnil] at h hl
      exact h.concat hl ".."
    · split
      · exact h
      · split
        · exact h.concat hl ".."
        · exact h.upward <| List.dropLast_prefix l
  · exact h.concat hl name

theorem backed_of_walk {here l : Location} {names : List String} (h : d.Backed here)
    (hw : d.walk here names = .ok l) : d.Backed l := by
  induction names generalizing here with
  | nil => exact Except.ok.inj hw ▸ h
  | cons name rest ih =>
    obtain ⟨hdir, hrest⟩ := walk_cons.mp hw
    exact ih (h.stepTo hdir name) hrest

theorem Reaches.backed {path : String} (h : d.Reaches path) : d.Backed (place path) := by
  apply backed_of_walk _ h.2
  intro m hm hne
  unfold startOf at hm hne
  split at hm
  · next hroot =>
    rw [if_pos hroot] at hne
    rcases List.prefix_concat_iff.mp (show m <+: [] ++ ["/"] from hm) with rfl | hm
    · exact absurd rfl hne
    · rw [List.prefix_nil.mp hm]
      rfl
  · next hroot =>
    rw [if_neg hroot] at hne
    exact absurd (List.prefix_nil.mp hm) hne

/-- A file can be created where one can be moved to. -/
theorem exists_create_iff {path : String} :
    (∃ made, d.create path = .ok made) ↔ d.Accepts path := by
  constructor
  · rintro ⟨⟨l, d'⟩, h⟩
    obtain ⟨rfl, hreach, hno, hnamed, -⟩ := create_eq_ok h
    refine ⟨hreach, hno, hreach.backed _ ?_ ?_, hnamed⟩
    · exact List.dropLast_prefix _
    intro hsame
    have hlen := congrArg List.length hsame
    rw [List.length_dropLast] at hlen
    rw [List.length_eq_zero_iff.mp (show (place path).length = 0 by omega)] at hno
    exact hno rfl
  · intro h
    have hr : d.resolve path = .ok (place path) :=
      resolve_eq_ok_iff.mpr ⟨rfl, h.reaches, fun hn => by rw [h.named] at hn; cases hn⟩
    unfold create
    rw [hr]
    dsimp only
    split
    · next hdir => exact absurd hdir h.noDir
    · exact ⟨_, rfl⟩
    · rw [h.named, h.parent]
      exact ⟨_, rfl⟩

theorem walk_concat {here l : Location} {names : List String} (h : d.walk here names = .ok l)
    (hl : d.get? l = some .dir) (name : String) :
    d.walk here (names ++ [name]) = .ok (stepTo l name) := by
  induction names generalizing here with
  | nil =>
    obtain rfl := Except.ok.inj h
    exact walk_cons.mpr ⟨hl, rfl⟩
  | cons first rest ih =>
    obtain ⟨hdir, hrest⟩ := walk_cons.mp h
    exact walk_cons.mpr ⟨hdir, ih hrest⟩

/-- The names of a cleaned path lead down to its place without a detour. -/
theorem walk_located {rooted : Bool} {s : List Path.Name} (hs : Path.Settled rooted s)
    (h : d.Backed (located rooted s)) :
    d.walk (located rooted []) (s.reverse.map String.ofList) = .ok (located rooted s) := by
  induction s with
  | nil => rfl
  | cons p s ih =>
    have hskip : ¬(p = [] ∨ p = ['.']) := not_or.mpr ⟨hs.1.1, hs.1.2.1⟩
    have habove : located rooted s <+: located rooted (p :: s) :=
      ⟨[String.ofList p], (located_cons rooted p s).symm⟩
    have hdir : d.get? (located rooted s) = some .dir := by
      apply h _ habove
      rw [located_cons]
      simp
    have hwalk := walk_concat (ih hs.2.2 (h.upward habove)) hdir (String.ofList p)
    rw [stepTo_located (fun q hq => (hs.2.2.forall_mem q hq).2.2) hskip,
      Path.pushPiece_of_settled hs] at hwalk
    rw [List.reverse_cons, List.map_append]
    exact hwalk

theorem namesOf_clean {path : String} {name : Path.Name} {s : List Path.Name}
    (hclean : Path.clean path.toList = path.toList)
    (hstack : Path.stack path.toList = name :: s) (hname : Path.IsName name) :
    namesOf path = ((name :: s).reverse.map String.ofList, false) := by
  have hsettled := Path.settled_stack path.toList
  rw [hstack] at hsettled
  have hpieces := Path.pieces_clean hstack
  rw [hclean, ← List.reverse_cons] at hpieces
  have hkept : (name :: s).reverse.filter (fun p => p ≠ [] ∧ p ≠ ['.']) = (name :: s).reverse := by
    rw [List.filter_eq_self]
    intro p hp
    obtain ⟨hnil, hdot, -⟩ := hsettled.forall_mem p (List.mem_reverse.mp hp)
    exact decide_eq_true ⟨hnil, hdot⟩
  have hfilter : (Path.pieces path.toList).filter (fun p => p ≠ [] ∧ p ≠ ['.']) =
      (name :: s).reverse := by
    rw [hpieces, List.filter_append, hkept]
    cases Path.isRooted path.toList <;> rfl
  have hlast : (Path.pieces path.toList).getLast?.getD [] = name := by
    rw [hpieces, List.reverse_cons, ← List.append_assoc, List.getLast?_concat]
    rfl
  simp only [namesOf, hfilter, hlast]
  simp [hname.ne_nil, hname.ne_dot, hname.ne_up]

section Below

variable {directory : String} (hnode : d.node? directory = some .dir)

include hnode

theorem accepts_below {path : String} {name : Path.Name}
    (hclean : Path.clean path.toList = path.toList)
    (hroot : Path.isRooted path.toList = Path.isRooted directory.toList)
    (hstack : Path.stack path.toList = name :: Path.stack directory.toList)
    (hname : Path.IsName name) : d.Accepts path ↔ d.get? (place path) ≠ some .dir := by
  obtain ⟨hreach, hdir, -⟩ := node?_eq_some_iff.mp hnode
  have hplace : place path = place directory ++ [String.ofList name] := by
    rw [place_eq_located, place_eq_located, hroot, hstack, located_cons]
  have hbacked : d.Backed (place path) := hplace ▸ hreach.backed.concat hdir _
  have hnames := namesOf_clean hclean hstack hname
  refine ⟨Accepts.noDir, fun hno => ⟨⟨?_, ?_⟩, hno, ?_, ?_⟩⟩
  · rintro rfl
    cases hstack
  · rw [startOf_eq_located, hnames, ← hstack]
    exact walk_located (Path.settled_stack path.toList) hbacked
  · rw [hplace, List.dropLast_concat, hdir]
  · rw [hnames]

variable {name : String} (hname : Path.IsName name.toList)

include hname

theorem accepts_inside :
    d.Accepts (Path.inside directory name) ↔ d.get? (place directory ++ [name]) ≠ some .dir := by
  have hd : directory ≠ "" := (node?_eq_some_iff.mp hnode).1.1
  obtain ⟨hroot, hstack⟩ := Path.join_spec (mt String.toList_eq_nil_iff.mp hd) hname
  have hclean := Path.clean_join (by rw [hstack]; simp)
  rw [← String.toList_ofList (l := Path.join _)] at hclean hroot hstack
  rw [← place_inside hd hname]
  exact accepts_below hnode hclean hroot hstack hname

theorem accepts_tempOf_inside :
    d.Accepts (Path.tempOf (Path.inside directory name)) ↔
      d.get? (place directory ++ ["." ++ name ++ ".tmp"]) ≠ some .dir := by
  have hd : directory ≠ "" := (node?_eq_some_iff.mp hnode).1.1
  obtain ⟨hroot, hstack⟩ := Path.temp_join_spec (mt String.toList_eq_nil_iff.mp hd) hname
  have hclean := Path.clean_temp (Path.join [directory.toList, name.toList])
  rw [← String.toList_ofList (l := Path.join _), ← String.toList_ofList (l := Path.temp _)]
    at hclean hroot hstack
  rw [← place_tempOf_inside hd hname]
  exact accepts_below hnode hclean hroot hstack hname.temp

end Below

end FlowPack.Disk
