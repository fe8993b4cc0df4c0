import Mathlib.Data.List.TakeWhile
import RequestAudit.CommandLine
import RequestAudit.Proofs.Results

/-!
# Parts of argument lists

A part of a list of arguments is an option with its value, in any of five spellings, or the option
for the rules. A part is read as what it says, and whatever is read begins with a part. An option
whose value is the next argument is taken up only with the argument after it, which changes nothing
for lists that are accepted.
-/

namespace RequestAudit.CommandLine

/-! ## Options by name and by letter -/

def Key.name : Key → String
  | settings => "config"
  | policy => "policy"
  | requests => "requests"
  | output => "output"

def Key.letter : Key → Char
  | settings => 'c'
  | policy => 'p'
  | requests => 'r'
  | output => 'o'

def Switch.name : Switch → String
  | valued k => k.name
  | dumpRules => "dump-rules"
  | help => "help"
  | version => "version"

theorem long?_eq_some_iff {s : String} {o : Switch} : long? s = some o ↔ s = o.name := by
  constructor
  · intro h
    unfold long? at h
    split at h <;> cases h <;> rfl
  · rintro rfl
    cases o with
    | valued k => cases k <;> rfl
    | dumpRules => rfl
    | help => rfl
    | version => rfl

theorem short?_eq_some_valued_iff {c : Char} {k : Key} :
    short? c = some (.valued k) ↔ c = k.letter := by
  constructor
  · intro h
    unfold short? at h
    split at h <;> cases h <;> rfl
  · rintro rfl
    cases k <;> rfl

theorem short?_ne_dumpRules (c : Char) : short? c ≠ some .dumpRules := by
  intro h
  unfold short? at h
  split at h <;> cases h

theorem letter_ne_hyphen (k : Key) : k.letter ≠ '-' := by cases k <;> decide

theorem name_ne_empty (o : Switch) : o.name.toList ≠ [] := by
  cases o with
  | valued k => cases k <;> decide
  | dumpRules => decide
  | help => decide
  | version => decide

theorem name_no_equals (o : Switch) : ∀ c ∈ o.name.toList, (c != '=') = true := by
  apply List.all_eq_true.mp
  cases o with
  | valued k => cases k <;> decide
  | dumpRules => decide
  | help => decide
  | version => decide

/-! ## Parts of lists -/

/-- An argument that is taken as a value. -/
def IsValue (v : String) : Prop := v = "-" ∨ v.toList.head? ≠ some '-'

instance (v : String) : Decidable (IsValue v) := inferInstanceAs (Decidable (_ ∨ _))

/-- Where the value of an option stands. -/
inductive Spelling where
  /-- The value is the argument after the name. -/
  | long
  | longEquals
  /-- The value is the argument after the letter. -/
  | short
  | shortEquals
  /-- The value follows the letter at once. -/
  | shortJoined

namespace Spelling

/-- The values that can be spelled so. -/
def Fits (v : String) : Spelling → Prop
  | long => IsValue v
  | longEquals => True
  | short => IsValue v
  | shortEquals => True
  | shortJoined => v.toList.head? ≠ some '='

instance (v : String) : (sp : Spelling) → Decidable (sp.Fits v)
  | long => inferInstanceAs (Decidable (IsValue v))
  | longEquals => inferInstanceAs (Decidable True)
  | short => inferInstanceAs (Decidable (IsValue v))
  | shortEquals => inferInstanceAs (Decidable True)
  | shortJoined => inferInstanceAs (Decidable (_ ≠ _))

def words (k : Key) (v : String) : Spelling → List String
  | long => ["--" ++ k.name, v]
  | longEquals => ["--" ++ k.name ++ "=" ++ v]
  | short => ["-" ++ String.singleton k.letter, v]
  | shortEquals => ["-" ++ String.singleton k.letter ++ "=" ++ v]
  | shortJoined => ["-" ++ String.singleton k.letter ++ v]

end Spelling

/-- What a part of a list says. -/
inductive Saying where
  | value (k : Key) (v : String)
  | dumpRules
  deriving DecidableEq

/-- The option that the saying is about. -/
def Saying.switch : Saying → Switch
  | value k _ => .valued k
  | dumpRules => .dumpRules

namespace Saying

/-- The value that the saying gives for an option. -/
def value? (k : Key) : Saying → Option String
  | value k' v => if k' = k then some v else none
  | dumpRules => none

theorem value?_eq_none_iff {k : Key} {x : Saying} : x.value? k = none ↔ x.switch ≠ .valued k := by
  cases x <;> simp [value?, switch]

theorem eq_value_of_value? {k : Key} {v : String} {x : Saying} (h : x.value? k = some v) :
    x = value k v := by
  cases x with
  | value k' v' =>
      rw [value?, Option.ite_none_right_eq_some] at h
      obtain ⟨rfl, hv⟩ := h
      rw [Option.some_inj.mp hv]
  | dumpRules => cases h

end Saying

/-- A part of a list. -/
inductive Part where
  | assignment (k : Key) (v : String) (sp : Spelling) (nonempty : v ≠ "") (fits : sp.Fits v)
  | dumpRules

namespace Part

def words : Part → List String
  | assignment k v sp _ _ => sp.words k v
  | dumpRules => ["--dump-rules"]

def saying : Part → Saying
  | assignment k v _ _ _ => .value k v
  | dumpRules => .dumpRules

end Part

namespace State

/-! ## Values that are not yet taken up -/

/-- A step has the results that it has once the value of the last option is taken up. If it fails,
that may be for another reason. -/
def Resolves (f : State → Except Refusal State) : Prop :=
  ∀ s t, f s = .ok t ↔ ∃ s', s.resolve = .ok s' ∧ f s' = .ok t

variable {s s' t : State} {k : Key} {v : String}

theorem resolve_eq_self (h : s.pending? = none) : s.resolve = .ok s := by
  simp only [resolve, h]

theorem set_eq_ok_iff : s.set k v = .ok t ↔
    s.values.lookup k = none ∧ v ≠ "" ∧ t = { s with values := (k, v) :: s.values } := by
  cases hk : s.values.lookup k with
  | some w => simp [set, hk]
  | none =>
      by_cases hv : v = ""
      · simp [set, hk, hv]
      · simpa [set, hk, hv] using eq_comm

theorem pending?_of_resolve (h : s.resolve = .ok s') : s'.pending? = none := by
  unfold resolve at h
  split at h
  · cases h
    assumption
  · cases h
  · obtain ⟨-, -, rfl⟩ := set_eq_ok_iff.mp h
    rfl

theorem resolve_of_resolve (h : s.resolve = .ok s') : s'.resolve = .ok s' :=
  resolve_eq_self (pending?_of_resolve h)

theorem resolves_resolve : Resolves resolve := by
  intro s t
  constructor
  · exact fun ht => ⟨t, ht, resolve_of_resolve ht⟩
  · rintro ⟨s', hs, ht⟩
    exact hs.trans ((resolve_of_resolve hs).symm.trans ht)

theorem resolves_error (r : Refusal) : Resolves fun _ => .error r := by
  intro s t
  exact ⟨nofun, fun ⟨_, _, h⟩ => nomatch h⟩

theorem Resolves.bind {f : State → Except Refusal State} (hf : Resolves f)
    (g : State → Except Refusal State) : Resolves fun s => f s >>= g := by
  intro s t
  rw [bind_eq_ok]
  constructor
  · rintro ⟨u, hu, hg⟩
    obtain ⟨s', hs, hfu⟩ := (hf s u).mp hu
    exact ⟨s', hs, bind_eq_ok.mpr ⟨u, hfu, hg⟩⟩
  · rintro ⟨s', hs, h⟩
    obtain ⟨u, hfu, hg⟩ := bind_eq_ok.mp h
    exact ⟨u, (hf s u).mpr ⟨s', hs, hfu⟩, hg⟩

theorem resolves_take (o : Switch) : Resolves fun s => s.take o := by
  cases o <;> exact resolves_resolve.bind _

theorem resolves_takeWith (v : String) (o : Switch) : Resolves fun s => s.takeWith v o := by
  cases o with
  | valued k => exact resolves_resolve.bind _
  | dumpRules => exact resolves_error _
  | help => exact resolves_error _
  | version => exact resolves_error _

theorem resolves_takeLong (cs : List Char) : Resolves fun s => s.takeLong cs := by
  unfold takeLong
  dsimp only
  split
  · exact resolves_error _
  · exact resolves_take _
  · exact resolves_takeWith _ _

theorem resolves_takeLetters (c : Char) (cs : List Char) :
    Resolves fun s => s.takeLetters (c :: cs) := by
  unfold takeLetters
  split
  · exact resolves_error _
  · split
    · exact resolves_take _
    · exact resolves_takeWith _ _
    · exact resolves_takeWith _ _
  · exact (resolves_take _).bind _

/-! ## Reading to the end -/

/-- Takes all arguments and the last value. -/
def read (s : State) (args : List String) : Except Refusal State := do
  (← s.takeAll args).resolve

theorem takeAll_long {arg : String} {c : Char} {cs : List Char}
    (h : arg.toList = '-' :: '-' :: c :: cs) (s : State) (args : List String) :
    s.takeAll (arg :: args) = s.takeLong (c :: cs) >>= (·.takeAll args) := by
  simp only [takeAll, h]

theorem takeAll_short {arg : String} {c : Char} {cs : List Char} (h : arg.toList = '-' :: c :: cs)
    (hc : c ≠ '-') (s : State) (args : List String) :
    s.takeAll (arg :: args) = s.takeLetters (c :: cs) >>= (·.takeAll args) := by
  rw [takeAll, h]
  split
  · rename_i heq
    exact absurd (List.cons.inj (List.cons.inj heq).2).1 hc
  · rename_i heq
    exact absurd (List.cons.inj (List.cons.inj heq).2).1 hc
  · rename_i heq
    cases heq
    rfl
  · rename_i hno
    exact absurd rfl (hno c cs)

theorem takeAll_value (hv : IsValue v) (s : State) (args : List String) :
    s.takeAll (v :: args) = s.takeValue v >>= (·.takeAll args) := by
  rcases hv with rfl | hv
  · rfl
  · rw [takeAll]
    split
    · rename_i heq
      exact absurd (by rw [heq]; rfl) hv
    · rename_i heq
      exact absurd (by rw [heq]; rfl) hv
    · rename_i heq
      exact absurd (by rw [heq]; rfl) hv
    · rfl

theorem read_long {arg : String} {c : Char} {cs : List Char}
    (h : arg.toList = '-' :: '-' :: c :: cs) (s : State) (args : List String) :
    s.read (arg :: args) = s.takeLong (c :: cs) >>= (·.read args) := by
  rw [read, takeAll_long h, bind_assoc]
  rfl

theorem read_short {arg : String} {c : Char} {cs : List Char} (h : arg.toList = '-' :: c :: cs)
    (hc : c ≠ '-') (s : State) (args : List String) :
    s.read (arg :: args) = s.takeLetters (c :: cs) >>= (·.read args) := by
  rw [read, takeAll_short h hc, bind_assoc]
  rfl

theorem read_value (hv : IsValue v) (s : State) (args : List String) :
    s.read (v :: args) = s.takeValue v >>= (·.read args) := by
  rw [read, takeAll_value hv, bind_assoc]
  rfl

/-- What the beginning of an argument makes of it. -/
inductive Shape (arg : String) : Prop
  | hyphens (h : arg = "--")
  | long {c : Char} {cs : List Char} (h : arg.toList = '-' :: '-' :: c :: cs)
  | short {c : Char} {cs : List Char} (h : arg.toList = '-' :: c :: cs) (hc : c ≠ '-')
  | value (h : IsValue arg)

theorem shape (arg : String) : Shape arg := by
  by_cases hhyphen : arg.toList.head? = some '-'
  · obtain ⟨cs, hcs⟩ := List.head?_eq_some_iff.mp hhyphen
    cases cs with
    | nil => exact .value (.inl (String.toList_inj.mp hcs))
    | cons c cs =>
        by_cases hc : c = '-'
        · subst hc
          cases cs with
          | nil => exact .hyphens (String.toList_inj.mp hcs)
          | cons c cs => exact .long hcs
        · exact .short hcs hc
  · exact .value (.inr hhyphen)

theorem resolves_read_of_not_isValue {arg : String} (h : ¬IsValue arg) (args : List String) :
    Resolves fun s => s.read (arg :: args) := by
  cases shape arg with
  | hyphens harg =>
      subst harg
      cases args with
      | nil => exact resolves_resolve
      | cons arg' args => exact resolves_error .unknownArgument
  | long harg =>
      simp only [read_long harg]
      exact (resolves_takeLong _).bind _
  | short harg hc =>
      simp only [read_short harg hc]
      exact (resolves_takeLetters _ _).bind _
  | value harg => exact absurd harg h

theorem takeValue_eq_error (h : ∀ k, s.pending? ≠ some (k, none)) (v : String) :
    s.takeValue v = .error .unknownArgument := by
  unfold takeValue
  split
  · rename_i k heq
    exact absurd heq (h k)
  · rfl

/-- An option that has its value may be taken up before anything else is read. -/
theorem read_eq_ok_iff_resolve (h : ∀ k, s.pending? ≠ some (k, none)) (args : List String) :
    s.read args = .ok t ↔ ∃ s', s.resolve = .ok s' ∧ s'.read args = .ok t := by
  cases args with
  | nil => exact resolves_resolve s t
  | cons arg args =>
      by_cases hvalue : IsValue arg
      · -- No option lacks a value, before or after the last one is taken up.
        rw [read_value hvalue, takeValue_eq_error h]
        refine ⟨nofun, ?_⟩
        rintro ⟨s', hs, ht⟩
        have hnone : ∀ k, s'.pending? ≠ some (k, none) := by
          simp [pending?_of_resolve hs]
        rw [read_value hvalue, takeValue_eq_error hnone] at ht
        cases ht
      · exact resolves_read_of_not_isValue hvalue args s t

/-- An option that lacks its value must be followed by one. -/
theorem exists_value_of_read {args : List String} (hpending : s.pending? = some (k, none))
    (h : s.read args = .ok t) : ∃ v rest, args = v :: rest ∧ v ≠ "" ∧ IsValue v := by
  have hresolve : s.resolve = .error .invalidValue := by simp only [resolve, hpending]
  cases args with
  | nil => exact nomatch hresolve.symm.trans h
  | cons arg args =>
      by_cases hvalue : IsValue arg
      · rw [read_value hvalue] at h
        simp only [takeValue, hpending] at h
        change State.read { s with pending? := some (k, some arg) } args = .ok t at h
        rw [read_eq_ok_iff_resolve (by simp)] at h
        obtain ⟨s', hs', -⟩ := h
        exact ⟨arg, args, rfl, (set_eq_ok_iff.mp hs').2.1, hvalue⟩
      · obtain ⟨s', hs, -⟩ := (resolves_read_of_not_isValue hvalue args s t).mp h
        exact nomatch hresolve.symm.trans hs

/-! ## Reading a part -/

/-- Takes up what a part says. -/
def give (s : State) : Saying → Except Refusal State
  | .value k v => s.set k v
  | .dumpRules => if s.dumpRules then .error .conflict else .ok { s with dumpRules := true }

theorem take_valued (hs : s.pending? = none) (k : Key) :
    s.take (.valued k) = .ok { s with pending? := some (k, none) } := by
  simp only [take, resolve_eq_self hs]
  rfl

theorem take_dumpRules (hs : s.pending? = none) : s.take .dumpRules = s.give .dumpRules := by
  simp only [take, resolve_eq_self hs]
  rfl

theorem takeWith_valued (hs : s.pending? = none) (v : String) (k : Key) :
    s.takeWith v (.valued k) = s.give (.value k v) := by
  simp only [takeWith, resolve_eq_self hs]
  rfl

theorem read_apart (hs : s.pending? = none) (hv : IsValue v) (args : List String) :
    ({ s with pending? := some (k, none) } : State).read (v :: args) = .ok t ↔
      ∃ s', s.give (.value k v) = .ok s' ∧ s'.read args = .ok t := by
  have hset : ({ s with pending? := some (k, some v) } : State).resolve = s.set k v := by
    obtain ⟨values, dumpRules, pending?⟩ := s
    cases hs
    rfl
  rw [read_value hv]
  change ({ s with pending? := some (k, some v) } : State).read args = .ok t ↔ _
  rw [read_eq_ok_iff_resolve (by simp), hset]
  rfl

theorem takeLong_name (s : State) (o : Switch) : s.takeLong o.name.toList = s.take o := by
  have hname : o.name.toList.takeWhile (· != '=') = o.name.toList :=
    List.takeWhile_eq_self_iff.mpr (name_no_equals o)
  have hrest : o.name.toList.dropWhile (· != '=') = [] :=
    List.dropWhile_eq_nil_iff.mpr (name_no_equals o)
  simp only [takeLong, hname, hrest, String.ofList_toList, long?_eq_some_iff.mpr rfl]

theorem takeLong_name_equals (s : State) (o : Switch) (cs : List Char) :
    s.takeLong (o.name.toList ++ '=' :: cs) = s.takeWith (String.ofList cs) o := by
  have hname : (o.name.toList ++ '=' :: cs).takeWhile (· != '=') = o.name.toList := by
    rw [List.takeWhile_append_of_pos (name_no_equals o)]
    simp
  have hrest : (o.name.toList ++ '=' :: cs).dropWhile (· != '=') = '=' :: cs := by
    rw [List.dropWhile_append_of_pos (name_no_equals o)]
    simp
  simp only [takeLong, hname, hrest, String.ofList_toList, long?_eq_some_iff.mpr rfl]

/-- A long option that is taken has its name, and perhaps its value after an equals sign. -/
theorem exists_name_of_takeLong {cs : List Char} (h : s.takeLong cs = .ok t) :
    ∃ o : Switch, cs = o.name.toList ∧ s.take o = .ok t ∨
      ∃ v, cs = o.name.toList ++ '=' :: v ∧ s.takeWith (String.ofList v) o = .ok t := by
  have hsplit := List.takeWhile_append_dropWhile (p := (· != '=')) (l := cs)
  simp only [takeLong] at h
  split at h
  · cases h
  · rename_i o ho hrest
    have hname := congrArg String.toList (long?_eq_some_iff.mp ho)
    rw [String.toList_ofList] at hname
    rw [hrest, List.append_nil, hname] at hsplit
    exact ⟨o, .inl ⟨hsplit.symm, h⟩⟩
  · rename_i o c v ho hrest
    have hname := congrArg String.toList (long?_eq_some_iff.mp ho)
    rw [String.toList_ofList] at hname
    have hc : c = '=' := by
      have hne : cs.dropWhile (· != '=') ≠ [] := by
        rw [hrest]
        exact List.cons_ne_nil c v
      simpa [hrest] using List.head_dropWhile_not _ hne
    rw [hrest, hc, hname] at hsplit
    exact ⟨o, .inr ⟨v, hsplit.symm, h⟩⟩

/-- Whoever asks for the help or the version gets nothing else. -/
theorem valued_or_dumpRules_of_take {o : Switch} (h : s.take o = .ok t) :
    (∃ k, o = .valued k) ∨ o = .dumpRules := by
  cases o with
  | valued k => exact .inl ⟨k, rfl⟩
  | dumpRules => exact .inr rfl
  | help =>
      obtain ⟨_, _, h⟩ := bind_eq_ok.mp h
      cases h
  | version =>
      obtain ⟨_, _, h⟩ := bind_eq_ok.mp h
      cases h

theorem valued_of_takeWith {o : Switch} (h : s.takeWith v o = .ok t) : ∃ k, o = .valued k := by
  cases o with
  | valued k => exact ⟨k, rfl⟩
  | dumpRules => cases h
  | help => cases h
  | version => cases h

theorem takeLetters_letter (s : State) (k : Key) :
    s.takeLetters [k.letter] = s.take (.valued k) := by
  simp only [takeLetters, short?_eq_some_valued_iff.mpr rfl]

theorem takeLetters_equals (s : State) (k : Key) (cs : List Char) :
    s.takeLetters (k.letter :: '=' :: cs) = s.takeWith (String.ofList cs) (.valued k) := by
  simp only [takeLetters, short?_eq_some_valued_iff.mpr rfl]

theorem takeLetters_joined {cs : List Char} (hne : cs ≠ []) (hequals : cs.head? ≠ some '=')
    (s : State) (k : Key) :
    s.takeLetters (k.letter :: cs) = s.takeWith (String.ofList cs) (.valued k) := by
  simp only [takeLetters, short?_eq_some_valued_iff.mpr rfl]
  split
  · exact absurd rfl hne
  · exact absurd rfl hequals
  · rfl

/-- Letters that are taken are the one of an option, and perhaps its value. -/
theorem exists_letter_of_takeLetters {c : Char} {cs : List Char}
    (h : s.takeLetters (c :: cs) = .ok t) : ∃ k : Key, c = k.letter ∧
      (cs = [] ∧ s.take (.valued k) = .ok t ∨
      (∃ v, cs = '=' :: v ∧ s.takeWith (String.ofList v) (.valued k) = .ok t) ∨
      cs ≠ [] ∧ cs.head? ≠ some '=' ∧ s.takeWith (String.ofList cs) (.valued k) = .ok t) := by
  unfold takeLetters at h
  split at h
  · cases h
  · rename_i k hk
    refine ⟨k, short?_eq_some_valued_iff.mp hk, ?_⟩
    split at h
    · exact .inl ⟨rfl, h⟩
    · exact .inr (.inl ⟨_, rfl, h⟩)
    · rename_i hnil hequals
      refine .inr (.inr ⟨hnil, fun hhead => ?_, h⟩)
      obtain ⟨v, hv⟩ := List.head?_eq_some_iff.mp hhead
      exact hequals v hv
  · rename_i o hvalued ho
    obtain ⟨u, hu, -⟩ := bind_eq_ok.mp h
    rcases valued_or_dumpRules_of_take hu with ⟨k, rfl⟩ | rfl
    · exact absurd rfl (hvalued k)
    · exact absurd ho (short?_ne_dumpRules c)

theorem read_name (o : Switch) (s : State) (args : List String) :
    s.read (("--" ++ o.name) :: args) = s.take o >>= (·.read args) := by
  obtain ⟨c, cs, hcs⟩ := List.exists_cons_of_ne_nil (name_ne_empty o)
  have harg : ("--" ++ o.name).toList = '-' :: '-' :: c :: cs := by
    rw [String.toList_append, hcs]
    rfl
  rw [read_long harg, ← hcs, takeLong_name]

theorem read_name_equals (o : Switch) (v : String) (s : State) (args : List String) :
    s.read (("--" ++ o.name ++ "=" ++ v) :: args) = s.takeWith v o >>= (·.read args) := by
  obtain ⟨c, cs, hcs⟩ := List.exists_cons_of_ne_nil (name_ne_empty o)
  have harg : ("--" ++ o.name ++ "=" ++ v).toList = '-' :: '-' :: c :: (cs ++ '=' :: v.toList) := by
    simp only [String.toList_append, hcs]
    simp
  rw [read_long harg, ← List.cons_append, ← hcs, takeLong_name_equals, String.ofList_toList]

theorem read_letter (k : Key) (s : State) (args : List String) :
    s.read (("-" ++ String.singleton k.letter) :: args) =
      s.take (.valued k) >>= (·.read args) := by
  have harg : ("-" ++ String.singleton k.letter).toList = ['-', k.letter] := by
    simp
  rw [read_short harg (letter_ne_hyphen k), takeLetters_letter]

theorem read_letter_equals (k : Key) (v : String) (s : State) (args : List String) :
    s.read (("-" ++ String.singleton k.letter ++ "=" ++ v) :: args) =
      s.takeWith v (.valued k) >>= (·.read args) := by
  have harg : ("-" ++ String.singleton k.letter ++ "=" ++ v).toList =
      '-' :: k.letter :: '=' :: v.toList := by
    simp
  rw [read_short harg (letter_ne_hyphen k), takeLetters_equals, String.ofList_toList]

theorem read_letter_joined {v : String} (hne : v ≠ "") (hequals : v.toList.head? ≠ some '=')
    (k : Key) (s : State) (args : List String) :
    s.read (("-" ++ String.singleton k.letter ++ v) :: args) =
      s.takeWith v (.valued k) >>= (·.read args) := by
  have harg : ("-" ++ String.singleton k.letter ++ v).toList = '-' :: k.letter :: v.toList := by
    simp
  have hchars : v.toList ≠ [] := by simpa using hne
  rw [read_short harg (letter_ne_hyphen k), takeLetters_joined hchars hequals, String.ofList_toList]

/-- A part is read as what it says, in whatever spelling. -/
theorem read_part (hs : s.pending? = none) (p : Part) (args : List String) :
    s.read (p.words ++ args) = .ok t ↔ ∃ s', s.give p.saying = .ok s' ∧ s'.read args = .ok t := by
  cases p with
  | assignment k v sp hne hfits =>
      cases sp with
      | long =>
          change s.read (("--" ++ (Switch.valued k).name) :: v :: args) = .ok t ↔ _
          rw [read_name, take_valued hs]
          exact read_apart hs hfits args
      | longEquals =>
          change s.read (("--" ++ (Switch.valued k).name ++ "=" ++ v) :: args) = .ok t ↔ _
          rw [read_name_equals, takeWith_valued hs, bind_eq_ok]
          rfl
      | short =>
          change s.read (("-" ++ String.singleton k.letter) :: v :: args) = .ok t ↔ _
          rw [read_letter, take_valued hs]
          exact read_apart hs hfits args
      | shortEquals =>
          change s.read (("-" ++ String.singleton k.letter ++ "=" ++ v) :: args) = .ok t ↔ _
          rw [read_letter_equals, takeWith_valued hs, bind_eq_ok]
          rfl
      | shortJoined =>
          change s.read (("-" ++ String.singleton k.letter ++ v) :: args) = .ok t ↔ _
          rw [read_letter_joined hne hfits, takeWith_valued hs, bind_eq_ok]
          rfl
  | dumpRules =>
      change s.read (("--" ++ Switch.dumpRules.name) :: args) = .ok t ↔ _
      rw [read_name, take_dumpRules hs, bind_eq_ok]
      rfl

theorem ne_empty_of_takeWith (hs : s.pending? = none) (h : s.takeWith v (.valued k) = .ok t) :
    v ≠ "" := by
  rw [takeWith_valued hs] at h
  exact (set_eq_ok_iff.mp h).2.1

theorem exists_value_of_take {args : List String} (hs : s.pending? = none)
    (htake : s.take (.valued k) = .ok s') (h : s'.read args = .ok t) :
    ∃ v rest, args = v :: rest ∧ v ≠ "" ∧ IsValue v := by
  cases (take_valued hs k).symm.trans htake
  exact exists_value_of_read rfl h

theorem exists_part_of_takeLong {arg : String} {cs : List Char} {args : List String}
    (hs : s.pending? = none) (harg : arg.toList = '-' :: '-' :: cs) (h : s.takeLong cs = .ok s')
    (hrest : s'.read args = .ok t) : ∃ (p : Part) (rest : List String),
      arg :: args = p.words ++ rest := by
  obtain ⟨o, ⟨hname, htake⟩ | ⟨v, hname, htake⟩⟩ := exists_name_of_takeLong h
  · obtain rfl : arg = "--" ++ o.name := by
      rw [← String.toList_inj, harg, hname, String.toList_append]
      rfl
    rcases valued_or_dumpRules_of_take htake with ⟨k, rfl⟩ | rfl
    · obtain ⟨v, rest, rfl, hne, hv⟩ := exists_value_of_take hs htake hrest
      exact ⟨.assignment k v .long hne hv, rest, rfl⟩
    · exact ⟨.dumpRules, args, rfl⟩
  · obtain rfl : arg = "--" ++ o.name ++ "=" ++ String.ofList v := by
      rw [← String.toList_inj, harg, hname]
      simp
    obtain ⟨k, rfl⟩ := valued_of_takeWith htake
    exact ⟨.assignment k _ .longEquals (ne_empty_of_takeWith hs htake) trivial, args, rfl⟩

theorem exists_part_of_takeLetters {arg : String} {c : Char} {cs : List Char} {args : List String}
    (hs : s.pending? = none) (harg : arg.toList = '-' :: c :: cs)
    (h : s.takeLetters (c :: cs) = .ok s') (hrest : s'.read args = .ok t) :
    ∃ (p : Part) (rest : List String), arg :: args = p.words ++ rest := by
  obtain ⟨k, rfl, ⟨rfl, htake⟩ | ⟨v, rfl, htake⟩ | ⟨-, hequals, htake⟩⟩ :=
    exists_letter_of_takeLetters h
  · obtain rfl : arg = "-" ++ String.singleton k.letter := by
      rw [← String.toList_inj, harg]
      simp
    obtain ⟨v, rest, rfl, hne, hv⟩ := exists_value_of_take hs htake hrest
    exact ⟨.assignment k v .short hne hv, rest, rfl⟩
  · obtain rfl : arg = "-" ++ String.singleton k.letter ++ "=" ++ String.ofList v := by
      rw [← String.toList_inj, harg]
      simp
    exact ⟨.assignment k _ .shortEquals (ne_empty_of_takeWith hs htake) trivial, args, rfl⟩
  · obtain rfl : arg = "-" ++ String.singleton k.letter ++ String.ofList cs := by
      rw [← String.toList_inj, harg]
      simp
    have hfits : (String.ofList cs).toList.head? ≠ some '=' := by
      rwa [String.toList_ofList]
    exact ⟨.assignment k _ .shortJoined (ne_empty_of_takeWith hs htake) hfits, args, rfl⟩

/-- What is read begins with a part, or is over. -/
theorem exists_part {arg : String} {args : List String} (hs : s.pending? = none)
    (h : s.read (arg :: args) = .ok t) :
    arg = "--" ∧ args = [] ∨ ∃ (p : Part) (rest : List String), arg :: args = p.words ++ rest := by
  cases shape arg with
  | hyphens harg =>
      cases args with
      | nil => exact .inl ⟨harg, rfl⟩
      | cons arg' args =>
          subst harg
          cases h
  | long harg =>
      rw [read_long harg] at h
      obtain ⟨s', htake, hrest⟩ := bind_eq_ok.mp h
      exact .inr (exists_part_of_takeLong hs harg htake hrest)
  | short harg hc =>
      rw [read_short harg hc] at h
      obtain ⟨s', htake, hrest⟩ := bind_eq_ok.mp h
      exact .inr (exists_part_of_takeLetters hs harg htake hrest)
  | value harg =>
      -- Nothing lacks a value here.
      rw [read_value harg, takeValue_eq_error (by simp [hs])] at h
      cases h

theorem pending?_give {x : Saying} (hs : s.pending? = none) (h : s.give x = .ok s') :
    s'.pending? = none := by
  cases x with
  | value k v =>
      obtain ⟨-, -, rfl⟩ := set_eq_ok_iff.mp h
      exact hs
  | dumpRules =>
      simp only [give] at h
      split at h
      · cases h
      · cases h
        exact hs

end State

end RequestAudit.CommandLine
