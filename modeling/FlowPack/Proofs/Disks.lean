import FlowPack.Disk.Tree
import FlowPack.Proofs.Paths

namespace FlowPack.Disk

/-- Where a path leads if all the directories on its way exist. -/
def place (path : String) : Location :=
  startOf path ++ (Path.cleanPieces path.toList).map String.ofList

def stepTo (here : Location) (name : String) : Location :=
  if name = ".." then above here else here ++ [name]

def located (rooted : Bool) (stack : List Path.Name) : Location :=
  (if rooted then ["/"] else []) ++ stack.reverse.map String.ofList

theorem located_cons (rooted : Bool) (p : Path.Name) (stack : List Path.Name) :
    located rooted (p :: stack) = located rooted stack ++ [String.ofList p] := by
  simp [located]

theorem place_eq_located (path : String) :
    place path = located (Path.isRooted path.toList) (Path.stack path.toList) := rfl

theorem startOf_eq_located (path : String) :
    startOf path = located (Path.isRooted path.toList) [] := by
  simp [startOf, located]

theorem stepTo_located {rooted : Bool} {stack : List Path.Name} {p : Path.Name}
    (hstack : ∀ q ∈ stack, '/' ∉ q) (hskip : ¬(p = [] ∨ p = ['.'])) :
    stepTo (located rooted stack) (String.ofList p) =
      located rooted (Path.pushPiece rooted stack p) := by
  by_cases hup : p = ['.', '.']
  · subst hup
    cases stack with
    | nil => cases rooted <;> rfl
    | cons top rest =>
      have hslash : String.ofList top ≠ "/" := by
        intro h
        have ht : top = ['/'] := String.ofList_inj.mp h
        exact hstack top List.mem_cons_self (ht ▸ List.mem_cons_self)
      have hdots : String.ofList top = ".." ↔ top = ['.', '.'] :=
        @String.ofList_inj top ['.', '.']
      rw [stepTo, if_pos rfl, above, located_cons, List.getLast?_concat]
      dsimp only
      rw [if_neg hslash]
      by_cases ht : top = ['.', '.']
      · simp [ht, Path.pushPiece, located_cons]
      · simp [hdots, ht, Path.pushPiece]
  · have hname : String.ofList p ≠ ".." := fun h => hup (String.ofList_inj.mp h)
    rw [Path.pushPiece_of_name hskip hup, stepTo, if_neg hname, located_cons]

theorem foldl_stepTo {rooted : Bool} {stack ps : List Path.Name}
    (hstack : Path.Settled rooted stack) (hps : ∀ p ∈ ps, '/' ∉ p) :
    ((ps.filter fun p => p ≠ [] ∧ p ≠ ['.']).map String.ofList).foldl stepTo
        (located rooted stack) =
      located rooted (ps.foldl (Path.pushPiece rooted) stack) := by
  induction ps generalizing stack with
  | nil => rfl
  | cons p ps ih =>
    rw [List.forall_mem_cons] at hps
    have hnext := ih (Path.settled_pushPiece hstack hps.1) hps.2
    rw [List.foldl_cons, ← hnext]
    by_cases hskip : p = [] ∨ p = ['.']
    · have hp : Path.pushPiece rooted stack p = stack := by
        rw [Path.pushPiece.eq_def, if_pos hskip]
      have hdrop : ¬decide (p ≠ [] ∧ p ≠ ['.']) = true := by
        rw [decide_eq_true_iff, ← not_or]
        exact not_not_intro hskip
      rw [hp, List.filter_cons_of_neg (by exact hdrop)]
    · have hkeep : decide (p ≠ [] ∧ p ≠ ['.']) = true := decide_eq_true (not_or.mp hskip)
      rw [List.filter_cons_of_pos (by exact hkeep), List.map_cons, List.foldl_cons,
        stepTo_located (fun q hq => (hstack.forall_mem q hq).2.2) hskip]

theorem place_eq_foldl (path : String) :
    place path = (namesOf path).1.foldl stepTo (startOf path) := by
  have hnil : Path.Settled (Path.isRooted path.toList) [] := trivial
  rw [startOf_eq_located]
  exact (foldl_stepTo hnil Path.slash_not_mem_of_mem_pieces).symm

theorem place_tempOf_ne (path : String) : place (Path.tempOf path) ≠ place path := by
  intro h
  have hto : (Path.tempOf path).toList = Path.temp path.toList := String.toList_ofList
  rw [place_eq_located, place_eq_located, hto, (Path.temp_spec path.toList).1] at h
  apply Path.stack_temp_ne path.toList
  have hmap := List.append_cancel_left h
  exact List.reverse_injective ((List.map_inj_right fun _ _ => String.ofList_inj.mp).mp hmap)

section Inside

variable {directory name : String} (hd : directory ≠ "") (hn : Path.IsName name.toList)

include hd hn

theorem place_inside : place (Path.inside directory name) = place directory ++ [name] := by
  have hd' : directory.toList ≠ [] := mt String.toList_eq_nil_iff.mp hd
  obtain ⟨hroot, hstack⟩ := Path.join_spec hd' hn
  rw [place_eq_located, place_eq_located, Path.inside, String.toList_ofList, hroot, hstack,
    located_cons, String.ofList_toList]

theorem place_tempOf_inside :
    place (Path.tempOf (Path.inside directory name)) =
      place directory ++ ["." ++ name ++ ".tmp"] := by
  have hd' : directory.toList ≠ [] := mt String.toList_eq_nil_iff.mp hd
  obtain ⟨hroot, hstack⟩ := Path.temp_join_spec hd' hn
  have hname : String.ofList ('.' :: name.toList ++ ".tmp".toList) = "." ++ name ++ ".tmp" := by
    apply String.toList_inj.mp
    simp
  rw [place_eq_located, place_eq_located, Path.tempOf, Path.inside, String.toList_ofList,
    String.toList_ofList, hroot, hstack, located_cons, hname]

end Inside

variable {d d' : Disk} {path : String}

theorem walk_cons {here l : Location} {name : String} {rest : List String} :
    d.walk here (name :: rest) = .ok l ↔
      d.get? here = some .dir ∧ d.walk (stepTo here name) rest = .ok l := by
  rw [walk, stepTo]
  split
  · next h => simp [h]
  · next h => simp [h]
  · next h =>
    rw [and_iff_right h]
    split <;> rfl

theorem walk_eq_ok {here l : Location} {names : List String} (h : d.walk here names = .ok l) :
    l = names.foldl stepTo here := by
  induction names generalizing here with
  | nil => exact (Except.ok.inj h).symm
  | cons name rest ih => exact ih (walk_cons.mp h).2

def SameDirs (d d' : Disk) : Prop := ∀ l, d'.get? l = some .dir ↔ d.get? l = some .dir

theorem SameDirs.symm (h : SameDirs d d') : SameDirs d' d := fun l => (h l).symm

theorem SameDirs.trans {d'' : Disk} (h : SameDirs d d') (h' : SameDirs d' d'') :
    SameDirs d d'' := fun l => (h' l).trans (h l)

theorem walk_mono (hd : ∀ l, d.get? l = some .dir → d'.get? l = some .dir) {here l : Location}
    {names : List String} (h : d.walk here names = .ok l) : d'.walk here names = .ok l := by
  induction names generalizing here with
  | nil => exact h
  | cons name rest ih =>
    obtain ⟨hhere, hrest⟩ := walk_cons.mp h
    exact walk_cons.mpr ⟨hd here hhere, ih hrest⟩

/-- The directories on the way of a path exist. -/
def Reaches (d : Disk) (path : String) : Prop :=
  path ≠ "" ∧ d.walk (startOf path) (namesOf path).1 = .ok (place path)

theorem Reaches.mono (hd : ∀ l, d.get? l = some .dir → d'.get? l = some .dir)
    (h : d.Reaches path) : d'.Reaches path :=
  ⟨h.1, walk_mono hd h.2⟩

theorem Reaches.of_sameDirs (hd : SameDirs d d') (h : d.Reaches path) : d'.Reaches path :=
  h.mono fun l => (hd l).mpr

theorem resolve_eq_ok_iff {l : Location} :
    d.resolve path = .ok l ↔ l = place path ∧ d.Reaches path ∧
      ((namesOf path).2 = true → ∀ data, d.get? (place path) ≠ some (.file data)) := by
  unfold Reaches
  by_cases hempty : path = ""
  · simp [resolve, hempty]
  cases hw : d.walk (startOf path) (namesOf path).1 with
  | error c => simp [resolve, hempty, hw]
  | ok m =>
    obtain rfl : m = place path := by
      rw [place_eq_foldl]
      exact walk_eq_ok hw
    have hl : (.ok (place path) : Except Cause Location) = .ok l ↔ l = place path :=
      ⟨fun h => (Except.ok.inj h).symm, fun h => congrArg _ h.symm⟩
    simp only [resolve, hempty, if_false, hw]
    cases hdir : (namesOf path).2 with
    | false => simp [hl, hempty]
    | true =>
      cases hg : d.get? (place path) with
      | none => simp [hl, hempty]
      | some n => cases n <;> simp [hl, hempty]

theorem find_eq_ok_iff {l : Location} {n : Node} :
    d.find path = .ok (l, n) ↔ l = place path ∧ d.Reaches path ∧
      d.get? (place path) = some n ∧ ((namesOf path).2 = true → n = .dir) := by
  unfold find
  constructor
  · intro h
    split at h
    · cases h
    next m hr =>
    obtain ⟨rfl, hreach, hdir⟩ := resolve_eq_ok_iff.mp hr
    split at h
    · cases h
    next k hg =>
    obtain ⟨rfl, rfl⟩ := Prod.mk.inj (Except.ok.inj h)
    refine ⟨rfl, hreach, hg, fun hn => ?_⟩
    cases k with
    | dir => rfl
    | file data => exact absurd hg (hdir hn data)
  · rintro ⟨rfl, hreach, hg, hdir⟩
    have hr : d.resolve path = .ok (place path) := by
      refine resolve_eq_ok_iff.mpr ⟨rfl, hreach, fun hn data => ?_⟩
      rw [hg, hdir hn]
      nofun
    rw [hr]
    simp only [hg]

def node? (d : Disk) (path : String) : Option Node :=
  match d.find path with
  | .ok (_, n) => some n
  | .error _ => none

theorem node?_eq_some_iff {n : Node} :
    d.node? path = some n ↔ d.Reaches path ∧ d.get? (place path) = some n ∧
      ((namesOf path).2 = true → n = .dir) := by
  unfold node?
  constructor
  · intro h
    split at h
    · next hf =>
      obtain ⟨-, hfound⟩ := find_eq_ok_iff.mp hf
      rwa [Option.some.inj h] at hfound
    · cases h
  · intro h
    rw [find_eq_ok_iff.mpr ⟨rfl, h⟩]

theorem node?_congr (hd : SameDirs d d') (hg : d'.get? (place path) = d.get? (place path)) :
    d'.node? path = d.node? path := by
  apply Option.ext
  intro n
  rw [node?_eq_some_iff, node?_eq_some_iff, hg]
  exact and_congr_left fun _ => ⟨.of_sameDirs hd.symm, .of_sameDirs hd⟩

/-- Nothing has changed but what is at the given paths. -/
structure KeptBut (paths : List String) (d d' : Disk) : Prop where
  locations : ∀ l, (∀ p ∈ paths, l ≠ place p) → d'.get? l = d.get? l
  nodes : ∀ q, (∀ p ∈ paths, place q ≠ place p) → d'.node? q = d.node? q

theorem SameDirs.keptBut {paths : List String} (hd : SameDirs d d')
    (h : ∀ l, (∀ p ∈ paths, l ≠ place p) → d'.get? l = d.get? l) : KeptBut paths d d' :=
  ⟨h, fun q hq => node?_congr hd (h (place q) hq)⟩

theorem KeptBut.refl (paths : List String) (d : Disk) : KeptBut paths d d :=
  ⟨fun _ _ => rfl, fun _ _ => rfl⟩

theorem KeptBut.mono {paths paths' : List String} (h : KeptBut paths d d')
    (hsub : paths ⊆ paths') : KeptBut paths' d d' :=
  ⟨fun l hl => h.locations l fun p hp => hl p (hsub hp),
    fun q hq => h.nodes q fun p hp => hq p (hsub hp)⟩

theorem lookup_filter_of_ne {entries : List (Location × Node)} {l m : Location} (h : m ≠ l) :
    (entries.filter fun e => e.1 ≠ l).lookup m = entries.lookup m := by
  induction entries with
  | nil => rfl
  | cons e entries ih =>
    obtain ⟨k, n⟩ := e
    by_cases hk : k = l
    · subst hk
      rw [List.filter_cons_of_neg (by simp), ih, List.lookup_cons, beq_false_of_ne h]
    · rw [List.filter_cons_of_pos (by simpa using hk), List.lookup_cons, List.lookup_cons, ih]

theorem lookup_filter_self {entries : List (Location × Node)} {l : Location} :
    (entries.filter fun e => e.1 ≠ l).lookup l = none := by
  rw [List.lookup_eq_none_iff]
  intro e he
  exact bne_iff_ne.mpr (of_decide_eq_true (List.mem_filter.mp he).2).symm

variable {l m : Location} {n : Node}

theorem get?_erase_of_ne (h : m ≠ l) : (d.erase l).get? m = d.get? m := by
  unfold get? erase
  split
  · rfl
  · exact lookup_filter_of_ne h

theorem get?_set_of_ne (h : m ≠ l) : (d.set l n).get? m = d.get? m := by
  unfold get? set erase
  split
  · rfl
  · rw [List.lookup_cons, beq_false_of_ne h]
    exact lookup_filter_of_ne h

section NoDir

variable (h : d.get? l ≠ some .dir)

include h

theorem isGiven_eq_false : isGiven l = false := by
  by_contra hg
  rw [Bool.not_eq_false] at hg
  exact h (by rw [get?, if_pos hg])

theorem get?_erase_self : (d.erase l).get? l = none := by
  rw [get?, isGiven_eq_false h]
  exact lookup_filter_self

theorem get?_set_self : (d.set l n).get? l = some n := by
  rw [get?, isGiven_eq_false h]
  simp [set]

theorem sameDirs_erase : SameDirs d (d.erase l) := by
  intro m
  by_cases hm : m = l
  · subst hm
    simp [get?_erase_self h, h]
  · rw [get?_erase_of_ne hm]

theorem sameDirs_set (data : Bytes) : SameDirs d (d.set l (.file data)) := by
  intro m
  by_cases hm : m = l
  · subst hm
    simp [get?_set_self h, h]
  · rw [get?_set_of_ne hm]

end NoDir

theorem create_eq_ok (h : d.create path = .ok (l, d')) :
    l = place path ∧ d.Reaches path ∧ d.get? l ≠ some .dir ∧ (namesOf path).2 = false ∧
      d' = d.set l (.file []) := by
  unfold create at h
  split at h
  · cases h
  next m hr =>
  obtain ⟨rfl, hreach, hdir⟩ := resolve_eq_ok_iff.mp hr
  split at h
  · cases h
  · next data hg =>
    obtain ⟨rfl, rfl⟩ := Prod.mk.inj (Except.ok.inj h)
    refine ⟨rfl, hreach, by simp [hg], ?_, rfl⟩
    by_contra hn
    exact hdir (Bool.not_eq_false _ ▸ hn) data hg
  · next hg =>
    split at h
    · cases h
    next hn =>
    split at h
    · cases h
    · cases h
    obtain ⟨rfl, rfl⟩ := Prod.mk.inj (Except.ok.inj h)
    exact ⟨rfl, hreach, by simp [hg], Bool.not_eq_true _ ▸ hn, rfl⟩

/-- A file can be moved to a path: its directory exists, and it does not lead to one. -/
structure Accepts (d : Disk) (path : String) : Prop where
  reaches : d.Reaches path
  noDir : d.get? (place path) ≠ some .dir
  parent : d.get? (place path).dropLast = some .dir
  named : (namesOf path).2 = false

theorem Accepts.of_sameDirs (hd : SameDirs d d') (h : d.Accepts path) : d'.Accepts path where
  reaches := h.reaches.of_sameDirs hd
  noDir := fun hdir => h.noDir ((hd _).mp hdir)
  parent := (hd _).mpr h.parent
  named := h.named

theorem rename_eq_ok_iff {old new : String} :
    d.rename old new = .ok d' ↔ ∃ n, d.find old = .ok (place old, n) ∧ d.Accepts new ∧
      d' = (d.erase (place old)).set (place new) n := by
  unfold rename
  constructor
  · intro h
    split at h
    · cases h
    · cases h
    next l n hold hnew =>
    obtain ⟨rfl, -⟩ := find_eq_ok_iff.mp hold
    split at h
    · cases h
    next m hr =>
    obtain ⟨rfl, hreach, hfile⟩ := resolve_eq_ok_iff.mp hr
    split at h
    · cases h
    · cases h
    next hparent =>
    split at h
    · cases h
    next hnamed =>
    refine ⟨n, hold, ⟨hreach, ?_, hparent, Bool.not_eq_true _ ▸ hnamed⟩, (Except.ok.inj h).symm⟩
    intro hdir
    exact hnew _ (find_eq_ok_iff.mpr ⟨rfl, hreach, hdir, fun _ => rfl⟩)
  · rintro ⟨n, hold, hacc, rfl⟩
    have hr : d.resolve new = .ok (place new) := by
      refine resolve_eq_ok_iff.mpr ⟨rfl, hacc.reaches, fun hn => ?_⟩
      rw [hacc.named] at hn
      cases hn
    rw [hold, hr]
    split
    · next hnew _ => exact absurd (find_eq_ok_iff.mp hnew).2.2.1 hacc.noDir
    · next he => cases he
    · next he _ =>
      cases he
      dsimp only
      rw [hacc.parent, hacc.named]
      rfl

theorem remove_eq (hreach : d.Reaches path) (hnamed : (namesOf path).2 = false)
    (hdir : d.get? (place path) ≠ some .dir) :
    d.remove path = if d.get? (place path) = none then d else d.erase (place path) := by
  unfold remove
  cases hg : d.get? (place path) with
  | none =>
    split
    · next hf =>
      have := (find_eq_ok_iff.mp hf).2.2.1
      rw [hg] at this
      cases this
    · rfl
  | some n =>
    cases n with
    | dir => exact absurd hg hdir
    | file data =>
      have hf : d.find path = .ok (place path, .file data) := by
        refine find_eq_ok_iff.mpr ⟨rfl, hreach, hg, ?_⟩
        rw [hnamed]
        nofun
      rw [hf]
      rfl

end FlowPack.Disk
