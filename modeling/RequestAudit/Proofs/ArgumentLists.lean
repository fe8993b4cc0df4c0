import Mathlib.Data.List.Nodup
import RequestAudit.Proofs.ArgumentParts

/-!
# Accepted lists of arguments

A list of arguments is accepted just when it is a row of parts in which no option comes twice, and
which has the requests or asks for the rules. What is read off the list depends only on what the
parts say, not on their order or their spelling.
-/

namespace RequestAudit.CommandLine

/-! ## Rows of parts -/

/-- What may stand at the end of the arguments. -/
def closing (ended : Bool) : List String := if ended then ["--"] else []

theorem Part.words_ne_nil (p : Part) : p.words ≠ [] := by
  cases p with
  | assignment k v sp _ _ => cases sp <;> exact List.cons_ne_nil _ _
  | dumpRules => exact List.cons_ne_nil _ _

namespace State

variable {s t : State}

theorem read_of_parts (parts : List Part) (ended : Bool) (hs : s.pending? = none)
    (h : (parts.map Part.saying).foldlM give s = .ok t) :
    s.read (parts.flatMap Part.words ++ closing ended) = .ok t := by
  induction parts generalizing s with
  | nil =>
      cases h
      cases ended <;> exact resolve_eq_self hs
  | cons p parts ih =>
      rw [List.map_cons, List.foldlM_cons, bind_eq_ok] at h
      obtain ⟨s', hgive, h⟩ := h
      rw [List.flatMap_cons, List.append_assoc, read_part hs]
      exact ⟨s', hgive, ih (pending?_give hs hgive) h⟩

theorem exists_parts_of_read (args : List String) (hs : s.pending? = none)
    (h : s.read args = .ok t) : ∃ (parts : List Part) (ended : Bool),
      parts.flatMap Part.words ++ closing ended = args ∧
        (parts.map Part.saying).foldlM give s = .ok t := by
  -- by length, since a part may be one argument or two
  induction hlength : args.length using Nat.strong_induction_on generalizing args s with
  | _ n ih =>
      subst hlength
      cases args with
      | nil => exact ⟨[], false, rfl, (resolve_eq_self hs).symm.trans h⟩
      | cons arg args =>
          rcases exists_part hs h with ⟨rfl, rfl⟩ | ⟨p, rest, hargs⟩
          · exact ⟨[], true, rfl, (resolve_eq_self hs).symm.trans h⟩
          · rw [hargs] at h ih ⊢
            obtain ⟨s', hgive, hread⟩ := (read_part hs p rest).mp h
            have hshorter : rest.length < (p.words ++ rest).length := by
              have hpos := List.length_pos_iff.mpr p.words_ne_nil
              rw [List.length_append]
              omega
            obtain ⟨parts, ended, rfl, hparts⟩ :=
              ih _ hshorter rest (pending?_give hs hgive) hread rfl
            refine ⟨p :: parts, ended, ?_, ?_⟩
            · rw [List.flatMap_cons, List.append_assoc]
            · rw [List.map_cons, List.foldlM_cons, bind_eq_ok]
              exact ⟨s', hgive, hparts⟩

/-! ## What is taken up in the end -/

/-- The state has nothing of the option that the saying is about. -/
def Lacks (s : State) : Saying → Prop
  | .value k _ => s.values.lookup k = none
  | .dumpRules => s.dumpRules = false

def add (s : State) : Saying → State
  | .value k v => { s with values := (k, v) :: s.values }
  | .dumpRules => { s with dumpRules := true }

theorem give_eq_ok_iff (p : Part) : s.give p.saying = .ok t ↔ s.Lacks p.saying ∧ t = s.add p.saying := by
  cases p with
  | assignment k v sp hne hfits =>
      change s.set k v = .ok t ↔ _
      rw [set_eq_ok_iff, and_iff_right hne]
      rfl
  | dumpRules =>
      cases hdump : s.dumpRules with
      | true => simp [give, Part.saying, Lacks, hdump]
      | false => simpa [give, Part.saying, Lacks, hdump, add] using eq_comm

theorem lookup_add (s : State) (x : Saying) (k : Key) :
    (s.add x).values.lookup k = (x.value? k).or (s.values.lookup k) := by
  cases x with
  | value k' v =>
      change List.lookup k ((k', v) :: s.values) = _
      rw [List.lookup_cons, Saying.value?]
      by_cases hk : k' = k
      · simp [hk]
      · rw [if_neg hk, beq_false_of_ne (Ne.symm hk)]
        rfl
  | dumpRules => rfl

theorem lacks_add (s : State) (x y : Saying) :
    (s.add x).Lacks y ↔ x.switch ≠ y.switch ∧ s.Lacks y := by
  cases y with
  | value k v =>
      change (s.add x).values.lookup k = none ↔ _
      rw [lookup_add, Option.or_eq_none_iff, Saying.value?_eq_none_iff]
      rfl
  | dumpRules => cases x <;> simp [add, Lacks, Saying.switch]

theorem foldlM_give_eq_ok_iff (parts : List Part) :
    (parts.map Part.saying).foldlM give s = .ok t ↔
      ((parts.map Part.saying).map Saying.switch).Nodup ∧ (∀ p ∈ parts, s.Lacks p.saying) ∧
        t = (parts.map Part.saying).foldl add s := by
  induction parts generalizing s with
  | nil => simp [pure, Except.pure, eq_comm]
  | cons p parts ih =>
      rw [List.map_cons, List.foldlM_cons, bind_eq_ok, List.map_cons, List.nodup_cons,
        List.foldl_cons, List.forall_mem_cons]
      constructor
      · rintro ⟨s', hgive, hrest⟩
        obtain ⟨hlacks, rfl⟩ := (give_eq_ok_iff p).mp hgive
        obtain ⟨hnodup, hall, ht⟩ := ih.mp hrest
        refine ⟨⟨?_, hnodup⟩, ⟨hlacks, fun q hq => ((lacks_add _ _ _).mp (hall q hq)).2⟩, ht⟩
        simp only [List.map_map, List.mem_map, Function.comp_apply, not_exists, not_and]
        exact fun q hq heq => ((lacks_add _ _ _).mp (hall q hq)).1 heq.symm
      · rintro ⟨⟨hnew, hnodup⟩, ⟨hlacks, hall⟩, ht⟩
        refine ⟨s.add p.saying, (give_eq_ok_iff p).mpr ⟨hlacks, rfl⟩, ih.mpr ⟨hnodup, ?_, ht⟩⟩
        intro q hq
        refine (lacks_add _ _ _).mpr ⟨fun heq => hnew ?_, hall q hq⟩
        rw [heq, List.map_map]
        exact List.mem_map_of_mem hq

theorem lookup_foldl_add {xs : List Saying} (h : (xs.map Saying.switch).Nodup) (s : State)
    (k : Key) :
    (xs.foldl add s).values.lookup k = (xs.findSome? (·.value? k)).or (s.values.lookup k) := by
  induction xs generalizing s with
  | nil => rfl
  | cons x xs ih =>
      rw [List.map_cons, List.nodup_cons] at h
      rw [List.foldl_cons, ih h.2, lookup_add, List.findSome?_cons]
      cases hx : x.value? k with
      | none => rfl
      | some v =>
          have hnone : xs.findSome? (·.value? k) = none := by
            rw [List.findSome?_eq_none_iff]
            intro y hy
            rw [Saying.value?_eq_none_iff]
            intro hswitch
            have hxk := Saying.eq_value_of_value? hx
            subst hxk
            exact h.1 (List.mem_map.mpr ⟨y, hy, hswitch⟩)
          rw [hnone]
          rfl

theorem dumpRules_foldl_add (xs : List Saying) (s : State) :
    (xs.foldl add s).dumpRules = (s.dumpRules || decide (.dumpRules ∈ xs)) := by
  induction xs generalizing s with
  | nil => simp
  | cons x xs ih =>
      rw [List.foldl_cons, ih]
      cases x <;> simp [add]

end State

/-! ## Lists -/

/-- The value that is given for an option. -/
def given? (xs : List Saying) (k : Key) : Option String := xs.findSome? (·.value? k)

/-- The options that are given. -/
def optionsOf (xs : List Saying) : CommandLine where
  settings := (given? xs .settings).getD "config.yaml"
  policy? := given? xs .policy
  requests? := given? xs .requests
  output? := given? xs .output
  dumpRules := decide (.dumpRules ∈ xs)

/-- There are requests to judge, or the rules are to be shown. -/
def IsComplete (xs : List Saying) : Prop := (∃ v, .value .requests v ∈ xs) ∨ .dumpRules ∈ xs

theorem mem_of_given? {xs : List Saying} {k : Key} {v : String} (h : given? xs k = some v) :
    .value k v ∈ xs := by
  obtain ⟨x, hx, hv⟩ := List.exists_of_findSome?_eq_some h
  rwa [← Saying.eq_value_of_value? hv]

theorem isSome_given? {xs : List Saying} {k : Key} :
    (given? xs k).isSome ↔ ∃ v, .value k v ∈ xs := by
  constructor
  · intro h
    obtain ⟨v, hv⟩ := Option.isSome_iff_exists.mp h
    exact ⟨v, mem_of_given? hv⟩
  · rintro ⟨v, hv⟩
    rw [Option.isSome_iff_ne_none]
    intro hnone
    exact Saying.value?_eq_none_iff.mp (List.findSome?_eq_none_iff.mp hnone _ hv) rfl

theorem isComplete_iff {xs : List Saying} :
    IsComplete xs ↔ (optionsOf xs).requests?.isSome ∨ (optionsOf xs).dumpRules := by
  rw [IsComplete, ← isSome_given?]
  exact or_congr_right decide_eq_true_iff.symm

theorem given?_eq_some_iff {xs : List Saying} (h : (xs.map Saying.switch).Nodup) {k : Key}
    {v : String} : given? xs k = some v ↔ .value k v ∈ xs := by
  refine ⟨mem_of_given?, fun hv => ?_⟩
  obtain ⟨w, hw⟩ := Option.isSome_iff_exists.mp (isSome_given?.mpr ⟨v, hv⟩)
  have hsame := List.inj_on_of_nodup_map h hv (mem_of_given? hw) rfl
  rw [hw, (Saying.value.inj hsame).2]

theorem optionsOf_eq {xs ys : List Saying} (hxs : (xs.map Saying.switch).Nodup)
    (hys : (ys.map Saying.switch).Nodup) (h : ∀ x, x ∈ xs ↔ x ∈ ys) :
    optionsOf xs = optionsOf ys := by
  have hgiven : given? xs = given? ys := by
    funext k
    apply Option.ext
    intro v
    rw [given?_eq_some_iff hxs, given?_eq_some_iff hys, h]
  simp only [optionsOf, hgiven, h]

/-- An accepted list of arguments, by its parts. -/
structure ArgumentList where
  parts : List Part
  /-- Whether two hyphens end the list. -/
  ended : Bool
  nodup : ((parts.map Part.saying).map Saying.switch).Nodup
  complete : IsComplete (parts.map Part.saying)

namespace ArgumentList

variable (l : ArgumentList)

def words : List String := l.parts.flatMap Part.words ++ closing l.ended

def sayings : List Saying := l.parts.map Part.saying

end ArgumentList

def State.options (s : State) : CommandLine where
  settings := (s.values.lookup .settings).getD "config.yaml"
  policy? := s.values.lookup .policy
  requests? := s.values.lookup .requests
  output? := s.values.lookup .output
  dumpRules := s.dumpRules

theorem parse_eq_ok_iff_read {args : List String} {options : CommandLine} :
    parse args = .ok options ↔ ∃ s, ({} : State).read args = .ok s ∧
      (options.requests?.isSome ∨ options.dumpRules) ∧ s.options = options := by
  rw [parse, ← bind_assoc, bind_eq_ok]
  refine exists_congr fun s => and_congr_right fun _ => ?_
  dsimp only
  split
  · rename_i hmissing
    rw [Bool.and_eq_true, Option.isNone_iff_eq_none, Bool.not_eq_true'] at hmissing
    refine ⟨nofun, ?_⟩
    rintro ⟨hcomplete, rfl⟩
    simp [State.options, hmissing] at hcomplete
  · rename_i hgiven
    constructor
    · intro h
      cases h
      refine ⟨?_, rfl⟩
      rwa [Bool.and_eq_true, not_and_or, Option.isNone_iff_eq_none, ← ne_eq,
        ← Option.isSome_iff_ne_none, Bool.not_eq_true', Bool.not_eq_false] at hgiven
    · exact fun h => congrArg Except.ok h.2

theorem State.options_foldl_add {xs : List Saying} (h : (xs.map Saying.switch).Nodup) :
    (xs.foldl add {}).options = optionsOf xs := by
  have hlookup : ∀ k, (xs.foldl add {}).values.lookup k = given? xs k := by
    intro k
    rw [lookup_foldl_add h]
    exact Option.or_none
  simp only [options, optionsOf, hlookup, dumpRules_foldl_add, Bool.false_or]

/-- A list of arguments is accepted just when it is the words of a list of parts, and then it is
read as what the parts say. -/
theorem parse_eq_ok_iff {args : List String} {options : CommandLine} :
    parse args = .ok options ↔
      ∃ l : ArgumentList, l.words = args ∧ optionsOf l.sayings = options := by
  rw [parse_eq_ok_iff_read]
  constructor
  · rintro ⟨s, hread, hcomplete, rfl⟩
    obtain ⟨parts, ended, hwords, hgive⟩ := State.exists_parts_of_read args rfl hread
    obtain ⟨hnodup, -, rfl⟩ := (State.foldlM_give_eq_ok_iff parts).mp hgive
    rw [State.options_foldl_add hnodup] at hcomplete ⊢
    exact ⟨⟨parts, ended, hnodup, isComplete_iff.mpr hcomplete⟩, hwords, rfl⟩
  · rintro ⟨l, rfl, rfl⟩
    have hlacks : ∀ p ∈ l.parts, ({} : State).Lacks p.saying := by
      intro p _
      cases p <;> rfl
    have hgive := (State.foldlM_give_eq_ok_iff l.parts).mpr ⟨l.nodup, hlacks, rfl⟩
    exact ⟨_, State.read_of_parts l.parts l.ended rfl hgive, isComplete_iff.mp l.complete,
      State.options_foldl_add l.nodup⟩

theorem complete_of_parse {args : List String} {options : CommandLine}
    (h : parse args = .ok options) : options.requests?.isSome ∨ options.dumpRules := by
  obtain ⟨_, -, hcomplete, -⟩ := parse_eq_ok_iff_read.mp h
  exact hcomplete

/-- The requests may be left out only to see the rules. -/
theorem exists_requests {args : List String} {options : CommandLine}
    (h : parse args = .ok options) (hdump : options.dumpRules = false) :
    ∃ path, options.requests? = some path := by
  have hcomplete := complete_of_parse h
  rw [hdump, or_iff_left Bool.false_ne_true] at hcomplete
  exact Option.isSome_iff_exists.mp hcomplete

end RequestAudit.CommandLine
