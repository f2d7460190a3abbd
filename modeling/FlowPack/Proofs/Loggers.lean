import FlowPack.Journal.Logger
import FlowPack.Proofs.Text.Order
import Mathlib.Data.String.Basic

namespace FlowPack.Journal

namespace Level

def effective (n : Int) : Int := if 0 ≤ n ∧ n ≤ 4 then n else info.code

theorem code_ofCode (n : Int) : ((ofCode n).code : Int) = effective n := by
  unfold ofCode effective
  grind [code]

theorem reaches_ofCode_iff {l : Level} {n : Int} :
    l.reaches (ofCode n) = true ↔ effective n ≤ l.code := by
  rw [reaches, decide_eq_true_eq, ← code_ofCode, Int.ofNat_le]

end Level

/-- The value that was given last for a key. -/
def latest? (given : List (String × Value)) (key : String) : Option Value :=
  (given.filter (·.1 = key)).getLast?.map (·.2)

theorem latest?_concat (given : List (String × Value)) (p : String × Value) (key : String) :
    latest? (given ++ [p]) key = if p.1 = key then some p.2 else latest? given key := by
  rw [latest?, List.filter_append]
  by_cases hp : p.1 = key
  · rw [List.filter_cons_of_pos (by simpa using hp), List.filter_nil, List.getLast?_concat,
      if_pos hp]
    rfl
  · rw [List.filter_cons_of_neg (by simpa using hp), List.filter_nil, List.append_nil, if_neg hp]
    rfl

/-- Each key has been given the same values in the same order; different keys may have come in
any order. -/
def Regrouped (given other : List (String × Value)) : Prop :=
  ∀ key, given.filter (·.1 = key) = other.filter (·.1 = key)

namespace Fields

variable {fields : Fields}

def Ordered (fields : Fields) : Prop := fields.Pairwise fun a b => utf8 a.1 < utf8 b.1

theorem mem_of_mem_set {key : String} {value : Value} {p : String × Value}
    (hp : p ∈ fields.set key value) : p = (key, value) ∨ p ∈ fields := by
  induction fields with
  | nil => exact .inl (List.mem_singleton.mp hp)
  | cons q rest ih =>
    rw [set] at hp
    grind

theorem Ordered.set (h : fields.Ordered) (key : String) (value : Value) :
    (fields.set key value).Ordered := by
  induction fields with
  | nil => exact List.pairwise_singleton _ _
  | cons q rest ih =>
    obtain ⟨k, v⟩ := q
    obtain ⟨hk, hrest⟩ := List.pairwise_cons.mp h
    rw [Fields.set]
    by_cases he : key = k
    · rw [if_pos he, he]
      exact List.pairwise_cons.mpr ⟨hk, hrest⟩
    rw [if_neg he]
    by_cases hlt : key < k
    · have hfirst := utf8_lt_utf8 hlt
      rw [if_pos hlt]
      refine List.pairwise_cons.mpr ⟨List.forall_mem_cons.mpr ⟨hfirst, ?_⟩, h⟩
      intro p hp
      exact List.lt_trans hfirst (hk p hp)
    · rw [if_neg hlt]
      refine List.pairwise_cons.mpr ⟨?_, ih hrest⟩
      intro p hp
      rcases mem_of_mem_set hp with rfl | hp
      · exact utf8_lt_utf8 ((lt_or_gt_of_ne he).resolve_left hlt)
      · exact hk p hp

/-- A value that is set replaces the one its key had and leaves all others. -/
theorem mem_set_iff (h : fields.Ordered) {key : String} {value : Value} {p : String × Value} :
    p ∈ fields.set key value ↔ p = (key, value) ∨ (p.1 ≠ key ∧ p ∈ fields) := by
  induction fields with
  | nil => simp [set]
  | cons q rest ih =>
    obtain ⟨k, v⟩ := q
    obtain ⟨hk, hrest⟩ := List.pairwise_cons.mp h
    rw [Fields.set]
    by_cases he : key = k
    · have hbehind : ∀ r ∈ rest, r.1 ≠ k := by
        rintro r hr rfl
        exact List.lt_irrefl _ (hk r hr)
      rw [if_pos he, List.mem_cons, List.mem_cons]
      grind
    rw [if_neg he]
    by_cases hlt : key < k
    · have hbehind : ∀ r ∈ rest, r.1 ≠ key := by
        rintro r hr rfl
        exact List.lt_irrefl _ (List.lt_trans (utf8_lt_utf8 hlt) (hk r hr))
      rw [if_pos hlt, List.mem_cons, List.mem_cons]
      grind
    · rw [if_neg hlt, List.mem_cons, List.mem_cons, ih hrest]
      grind

/-- The fields show every key that was given, with the value that was given last, in the order of
the bytes of the keys. -/
structure Shows (fields : Fields) (given : List (String × Value)) : Prop where
  ordered : fields.Ordered
  mem_iff : ∀ key value, (key, value) ∈ fields ↔ latest? given key = some value

namespace Shows

variable {given other : List (String × Value)}

theorem nil : Shows [] [] := ⟨.nil, by simp [latest?]⟩

theorem set (h : fields.Shows given) (p : String × Value) :
    (fields.set p.1 p.2).Shows (given ++ [p]) := by
  refine ⟨h.ordered.set p.1 p.2, ?_⟩
  intro key value
  rw [mem_set_iff h.ordered, latest?_concat, h.mem_iff]
  grind

theorem setAll (h : fields.Shows given) (more : List (String × Value)) :
    (fields.setAll more).Shows (given ++ more) := by
  induction more generalizing fields given with
  | nil => rwa [List.append_nil]
  | cons p more ih =>
    have hrest := ih (h.set p)
    rwa [List.append_assoc, List.singleton_append] at hrest

theorem regrouped (h : fields.Shows given) (hr : Regrouped given other) : fields.Shows other := by
  refine ⟨h.ordered, ?_⟩
  intro key value
  rw [h.mem_iff, latest?, latest?, hr key]

theorem unique {shown : Fields} (h : fields.Shows given) (hs : shown.Shows given) :
    fields = shown := by
  have hne : ∀ {a b : String × Value}, utf8 a.1 < utf8 b.1 → a ≠ b := by
    rintro a b hlt rfl
    exact List.lt_irrefl _ hlt
  have hperm : fields.Perm shown := by
    apply (List.perm_ext_iff_of_nodup (h.ordered.imp hne) (hs.ordered.imp hne)).mpr
    rintro ⟨key, value⟩
    rw [h.mem_iff, hs.mem_iff]
  apply hperm.eq_of_pairwise _ h.ordered hs.ordered
  intro a b _ _ hab hba
  exact absurd hba (List.lt_asymm hab)

end Shows

end Fields

theorem Entry.render_eq (e : Entry) :
    e.render = " ".intercalate (("[" ++ e.level.name ++ "]") ::
      e.fields.map (fun f => f.1 ++ "=" ++ f.2.shown) ++ [e.message]) := by
  unfold render
  generalize "[" ++ e.level.name ++ "]" = first
  induction e.fields generalizing first with
  | nil =>
    rw [List.map_nil, List.map_nil, String.join_nil, String.append_empty]
    rfl
  | cons f fields ih =>
    obtain ⟨key, value⟩ := f
    rw [List.map_cons, String.join_cons, List.map_cons, List.cons_append, List.cons_append,
      String.intercalate_cons_cons, ← List.cons_append, ← ih]
    simp only [String.append_assoc]

/-- The calls made on a family of loggers, the last one outermost. A call goes through a logger
that has been made before it; the index counts those. Adding one field or several both derive a
logger. -/
inductive History : Nat → Type where
  | start (code : Int) (fields : List (String × Value)) : History 1
  | derive {n : Nat} (h : History n) (through : Fin n) (fields : List (String × Value)) :
    History (n + 1)
  | setLevel {n : Nat} (h : History n) (through : Fin n) (code : Int) : History n
  | log {n : Nat} (h : History n) (through : Fin n) (level : Level) (template : String)
    (args : List Value) : History n

namespace History

def family {n : Nat} : History n → Family
  | start code fields => .start (.ofCode code) fields
  | derive h i fields => h.family.derive i fields
  | setLevel h _ code => h.family.setLevel (.ofCode code)
  | log h _ _ _ _ => h.family

def lines {n : Nat} : History n → List Entry
  | start _ _ => []
  | derive h _ _ => h.lines
  | setLevel h _ _ => h.lines
  | log h i level template args => h.lines ++ (h.family.log? i level template args).toList

def code {n : Nat} : History n → Int
  | start code _ => code
  | derive h _ _ => h.code
  | setLevel _ _ code => code
  | log h _ _ _ _ => h.code

/-- The fields that a logger was given on its way from the first one, in order. -/
def lineage {n : Nat} : History n → Fin n → List (String × Value)
  | start _ fields, _ => fields
  | derive h i fields, g => g.lastCases (h.lineage i ++ fields) h.lineage
  | setLevel h _ _, g => h.lineage g
  | log h _ _ _ _, g => h.lineage g

end History

namespace Family

theorem fieldsOf_derive_of_lt {f : Family} {g : Nat} (hg : g < f.loggers.length) (i : Nat)
    (fields : List (String × Value)) : (f.derive i fields).fieldsOf g = f.fieldsOf g := by
  rw [fieldsOf, derive, List.getElem?_append_left hg, ← fieldsOf]

theorem fieldsOf_derive_length (f : Family) (i : Nat) (fields : List (String × Value)) :
    (f.derive i fields).fieldsOf f.loggers.length = (f.fieldsOf i).setAll fields := by
  rw [fieldsOf, derive, List.getElem?_concat_length]
  rfl

structure Holds {n : Nat} (f : Family) (code : Int) (lineage : Fin n → List (String × Value)) :
    Prop where
  level : f.level = .ofCode code
  count : f.loggers.length = n
  shows : ∀ g : Fin n, (f.fieldsOf g).Shows (lineage g)

theorem holds_start (code : Int) (fields : List (String × Value)) :
    (start (.ofCode code) fields).Holds code fun _ : Fin 1 => fields where
  level := rfl
  count := rfl
  shows g := by
    obtain rfl := Subsingleton.elim g 0
    exact Fields.Shows.nil.setAll fields

namespace Holds

variable {n : Nat} {f : Family} {code : Int} {lineage : Fin n → List (String × Value)}

theorem derive (h : f.Holds code lineage) (i : Fin n) (fields : List (String × Value)) :
    (f.derive i fields).Holds code fun g => g.lastCases (lineage i ++ fields) lineage where
  level := h.level
  count := by rw [Family.derive, List.length_append, h.count]; rfl
  shows g := by
    cases g using Fin.lastCases with
    | last =>
      have hnew := fieldsOf_derive_length f i fields
      rw [h.count] at hnew
      rw [Fin.lastCases_last, Fin.val_last, hnew]
      exact (h.shows i).setAll fields
    | cast g =>
      have hg : g < f.loggers.length := by
        rw [h.count]
        exact g.isLt
      rw [Fin.lastCases_castSucc, Fin.val_castSucc, fieldsOf_derive_of_lt hg]
      exact h.shows g

theorem setLevel (h : f.Holds code lineage) (other : Int) :
    (f.setLevel (.ofCode other)).Holds other lineage where
  level := rfl
  count := h.count
  shows := h.shows

theorem log? (h : f.Holds code lineage) {g : Fin n} {fields : Fields}
    (hf : fields.Shows (lineage g)) (level : Level) (template : String) (args : List Value) :
    f.log? g level template args =
      if Level.effective code ≤ level.code then some ⟨level, fields, Template.fill template args⟩
      else none := by
  have hfields : f.fieldsOf g = fields := (h.shows g).unique hf
  rw [Family.log?, h.level, hfields]
  simp only [Level.reaches_ofCode_iff]

end Holds

end Family

namespace History

variable {n m : Nat}

/-- Each call keeps what the family holds, so all of them do. -/
theorem family_holds (h : History n) : h.family.Holds h.code h.lineage := by
  induction h with
  | start code fields => exact Family.holds_start code fields
  | derive h i fields ih => exact ih.derive i fields
  | setLevel h i code ih => exact ih.setLevel code
  | log h i level template args ih => exact ih

inductive Leads (h : History n) : ∀ {m : Nat}, History m → Prop where
  | refl : Leads h h
  | derive {m : Nat} {later : History m} (hl : Leads h later) (i : Fin m)
    (fields : List (String × Value)) : Leads h (later.derive i fields)
  | setLevel {m : Nat} {later : History m} (hl : Leads h later) (i : Fin m) (code : Int) :
    Leads h (later.setLevel i code)
  | log {m : Nat} {later : History m} (hl : Leads h later) (i : Fin m) (level : Level)
    (template : String) (args : List Value) : Leads h (later.log i level template args)

theorem Leads.le {h : History n} {later : History m} (hl : h.Leads later) : n ≤ m := by
  induction hl with
  | refl => exact Nat.le_refl n
  | derive _ _ _ ih => exact Nat.le_succ_of_le ih
  | setLevel _ _ _ ih | log _ _ _ _ _ ih => exact ih

theorem lineage_castLE {h : History n} {later : History m} (hl : h.Leads later) (g : Fin n) :
    later.lineage (g.castLE hl.le) = h.lineage g := by
  induction hl with
  | refl => rfl
  | derive hl i fields ih =>
    rw [← ih]
    exact Fin.lastCases_castSucc (g.castLE hl.le)
  | setLevel _ _ _ ih | log _ _ _ _ _ ih => exact ih

def Adds (h : History n) (through : Fin n) (level : Level) (template : String) (args : List Value)
    (line : Entry) : Prop :=
  (h.log through level template args).lines =
    h.lines ++ if Level.effective h.code ≤ level.code then [line] else []

theorem adds_of_shows (h : History n) {g : Fin n} {fields : Fields}
    (hf : fields.Shows (h.lineage g)) (level : Level) (template : String) (args : List Value) :
    h.Adds g level template args ⟨level, fields, Template.fill template args⟩ := by
  rw [Adds, lines, h.family_holds.log? hf]
  split <;> rfl

end History

/-- Logging through a logger adds one line if its level is at least the one that was set last
through any logger of the family, and none otherwise. The line shows the fields of the lineage of
that logger, whatever is called before or after and in whatever order different keys were given. -/
theorem loggers_share_level_and_keep_fields {n : Nat} (h : History n) (g : Fin n) (level : Level)
    (template : String) (args : List Value) :
    ∃ line : Entry,
      line.render = " ".intercalate (("[" ++ level.name ++ "]") ::
        line.fields.map (fun f => f.1 ++ "=" ++ f.2.shown) ++ [Template.fill template args]) ∧
      line.fields.Shows (h.lineage g) ∧
      (∀ {m : Nat} (later : History m) (hl : h.Leads later),
        later.Adds (g.castLE hl.le) level template args line) ∧
      ∀ {m : Nat} (other : History m) (k : Fin m), Regrouped (h.lineage g) (other.lineage k) →
        other.Adds k level template args line := by
  have hf := h.family_holds.shows g
  refine ⟨⟨level, h.family.fieldsOf g, Template.fill template args⟩, Entry.render_eq _, hf, ?_, ?_⟩
  · intro m later hl
    apply later.adds_of_shows
    rwa [History.lineage_castLE hl]
  · intro m other k hr
    exact other.adds_of_shows (hf.regrouped hr) level template args

def siblings : History 3 :=
  (((History.start 3 [("b", .int 1)]).derive 0
    [("é", .null), ("b", .bool true), ("a", .text "x")]).derive 0 [("c", .int 4)]).setLevel 2 9

def busySiblings : History 4 := (siblings.derive 1 [("a", .int 0)]).log 3 .error "late" []

def chained : History 3 :=
  ((History.start 0 [("a", .text "x")]).derive 0 [("b", .int 1)]).derive 1
    [("b", .bool true), ("é", .null)]

theorem regrouped_chained : Regrouped (siblings.lineage 1) (chained.lineage 2) := by
  have hs : siblings.lineage 1 =
      [("b", .int 1), ("é", .null), ("b", .bool true), ("a", .text "x")] := rfl
  have hc : chained.lineage 2 =
      [("a", .text "x"), ("b", .int 1), ("b", .bool true), ("é", .null)] := rfl
  intro key
  rw [hs, hc]
  grind

theorem loggers_share_level_and_keep_fields_siblings :
    siblings.Leads busySiblings ∧ Regrouped (siblings.lineage 1) (chained.lineage 2) ∧
      (siblings.log 1 .debug "full" []).lines = [] ∧
      ∃ line : Entry, line.render = "[WARN] a=x b=true é=<nil> full" ∧
        (busySiblings.log 1 .warn "full" []).lines = busySiblings.lines ++ [line] ∧
        (chained.log 2 .warn "full" []).lines = [line] := by
  have hbusy : siblings.Leads busySiblings := (History.Leads.refl.derive 1 _).log 3 _ _ _
  obtain ⟨_, _, _, hdebug, _⟩ := loggers_share_level_and_keep_fields siblings 1 .debug "full" []
  obtain ⟨line, hrender, hshows, hlater, hother⟩ :=
    loggers_share_level_and_keep_fields siblings 1 .warn "full" []
  refine ⟨hbusy, regrouped_chained, hdebug siblings .refl, line, ?_, hlater busySiblings hbusy,
    hother chained 2 regrouped_chained⟩
  rw [hrender, hshows.unique (siblings.family_holds.shows 1)]
  decide

end FlowPack.Journal
