import Mathlib
import RequestAudit.Proofs.Acceptance
import RequestAudit.Proofs.PolicyText
import RequestAudit.Proofs.RuleEdits

/-!
# The first offence

A policy may break several rules for policies at once and is refused for one of them. Which one it
is follows from the order in which things are looked at: the version and the kind of the document,
then the rules one by one, of a rule its mixture, then its path specs and then its selectors. What
comes after the first offence plays no part in it, and the wording tells the offences apart.
-/

namespace RequestAudit

/-- What is wrong with a path spec. The first character goes before the stars. -/
inductive PathReports (path : String) : Rule.Offence → Prop
  | unrooted (hstar : path ≠ "*") (hhead : path.toList.head? ≠ some '/') :
      PathReports path (.unrooted path)
  | innerStar (hhead : path.toList.head? = some '/') (hspec : ¬IsStarredPathSpec path) :
      PathReports path (.innerStar path)

/-- What a rule is refused for: the mixture, else its first path spec that is wrong, else its first
selector with an empty type. -/
inductive Rule.Reports (r : Rule) : Rule.Offence → Prop
  | mixed (h : ¬r.IsUnmixed) : Reports r .mixed
  | path {earlier later : List String} {path : String} {o : Rule.Offence}
      (hunmixed : r.IsUnmixed) (hpaths : r.paths = earlier ++ path :: later)
      (hearlier : ∀ x ∈ earlier, IsStarredPathSpec x) (h : PathReports path o) : Reports r o
  | emptyType {earlier later : List ResourceSelector} {s : ResourceSelector}
      (hunmixed : r.IsUnmixed) (hpaths : ∀ path ∈ r.paths, IsStarredPathSpec path)
      (hresources : r.resources = earlier ++ s :: later)
      (hearlier : ∀ x ∈ earlier, "" ∉ x.types) (h : "" ∈ s.types) : Reports r (.emptyType s.group)

/-- What a policy is refused for: the version, else the kind, else the first rule that is refused
by itself. -/
inductive Policy.Reports (p : Policy) : Policy.Offence → Prop
  | version (h : p.apiVersion ∉ supportedVersions) : Reports p (.version p.apiVersion)
  | kind (hversion : p.apiVersion ∈ supportedVersions) (h : p.kind ≠ "Policy") :
      Reports p (.kind p.kind)
  | rule {earlier later : List Rule} {r : Rule} {o : Rule.Offence}
      (hversion : p.apiVersion ∈ supportedVersions) (hkind : p.kind = "Policy")
      (hrules : p.rules = earlier ++ r :: later) (hearlier : ∀ x ∈ earlier, x.offence? = none)
      (h : r.offence? = some o) : Reports p (.rule earlier.length o)

/-! ## One rule -/

theorem pathOffence?_eq_some_iff (path : String) (o : Rule.Offence) :
    pathOffence? path = some o ↔ PathReports path o := by
  have hspec := isStarredPathSpec_iff path
  unfold pathOffence?
  constructor
  · intro h
    split_ifs at h with hstar hhead hinner
    · cases h
      exact .unrooted hstar hhead
    · cases h
      refine .innerStar (not_not.mp hhead) fun hs => ?_
      exact (hspec.mp hs).elim hstar fun hrest => hrest.2 hinner
  · rintro (⟨hstar, hhead⟩ | ⟨hhead, hs⟩)
    · rw [if_neg hstar, if_pos hhead]
    · have hstar : path ≠ "*" := fun heq => hs (.inl heq)
      have hinner : '*' ∈ Text.dropEndWhile (· == '*') path.toList := by
        by_contra hnot
        exact hs (hspec.mpr (.inr ⟨hhead, hnot⟩))
      rw [if_neg hstar, if_neg (not_not.mpr hhead), if_pos hinner]

theorem ResourceSelector.offence?_eq_some_iff (s : ResourceSelector) (o : Rule.Offence) :
    s.offence? = some o ↔ "" ∈ s.types ∧ o = .emptyType s.group := by
  unfold offence?
  by_cases h : "" ∈ s.types
  · simp [h, eq_comm]
  · simp [h]

namespace Rule

theorem isMixed_iff (r : Rule) :
    (r.selectsResources && !r.paths.isEmpty) = true ↔ ¬r.IsUnmixed := by
  simp [selectsResources, IsUnmixed]
  tauto

theorem offence?_eq_some_iff (r : Rule) (o : Offence) : r.offence? = some o ↔ r.Reports o := by
  unfold offence?
  split_ifs with hmixed
  · have hnot := r.isMixed_iff.mp hmixed
    constructor
    · intro h
      cases h
      exact .mixed hnot
    · rintro (_ | ⟨hunmixed, -, -, -⟩ | ⟨hunmixed, -, -, -, -⟩)
      · rfl
      · exact absurd hunmixed hnot
      · exact absurd hunmixed hnot
  · have hunmixed : r.IsUnmixed := not_not.mp (mt r.isMixed_iff.mpr hmixed)
    rw [Option.or_eq_some_iff, List.findSome?_eq_some_iff, List.findSome?_eq_some_iff,
      List.findSome?_eq_none_iff]
    simp only [pathOffence?_eq_none_iff, ResourceSelector.offence?_eq_none_iff,
      pathOffence?_eq_some_iff, ResourceSelector.offence?_eq_some_iff]
    constructor
    · rintro (⟨earlier, path, later, hpaths, h, hearlier⟩ |
        ⟨hpaths, earlier, s, later, hresources, ⟨h, rfl⟩, hearlier⟩)
      · exact .path hunmixed hpaths hearlier h
      · exact .emptyType hunmixed hpaths hresources hearlier h
    · rintro (h | ⟨-, hpaths, hearlier, h⟩ | ⟨-, hpaths, hresources, hearlier, h⟩)
      · exact absurd hunmixed h
      · exact .inl ⟨_, _, _, hpaths, h, hearlier⟩
      · exact .inr ⟨hpaths, _, _, _, hresources, ⟨h, rfl⟩, hearlier⟩

theorem firstOffence?_append_of_none {earlier : List Rule} (h : ∀ x ∈ earlier, x.offence? = none)
    (place : ℕ) (rs : List Rule) :
    firstOffence? place (earlier ++ rs) = firstOffence? (place + earlier.length) rs := by
  induction earlier generalizing place with
  | nil => rfl
  | cons x earlier ih =>
      obtain ⟨hx, hearlier⟩ := List.forall_mem_cons.mp h
      rw [List.cons_append, firstOffence?, hx, List.length_cons, Nat.add_comm earlier.length,
        ← Nat.add_assoc]
      exact ih hearlier (place + 1)

/-- The first rule with an offence is found at its place, whatever rules come after it. -/
theorem firstOffence?_eq_some_iff (place : ℕ) (rs : List Rule) (o : Policy.Offence) :
    firstOffence? place rs = some o ↔
      ∃ earlier r later offence, rs = earlier ++ r :: later ∧ (∀ x ∈ earlier, x.offence? = none) ∧
        r.offence? = some offence ∧ o = .rule (place + earlier.length) offence := by
  constructor
  · intro h
    induction rs generalizing place with
    | nil => cases h
    | cons r rs ih =>
        rw [firstOffence?] at h
        cases hr : r.offence? with
        | some offence =>
            rw [hr] at h
            cases h
            exact ⟨[], r, rs, offence, rfl, by simp, hr, rfl⟩
        | none =>
            rw [hr] at h
            obtain ⟨earlier, r', later, offence, rfl, hearlier, hr', rfl⟩ := ih (place + 1) h
            refine ⟨r :: earlier, r', later, offence, rfl, ?_, hr', ?_⟩
            · exact List.forall_mem_cons.mpr ⟨hr, hearlier⟩
            · rw [List.length_cons, Nat.add_comm earlier.length, ← Nat.add_assoc]
  · rintro ⟨earlier, r, later, offence, rfl, hearlier, hr, rfl⟩
    rw [firstOffence?_append_of_none hearlier, firstOffence?, hr]

end Rule

/-! ## The policy -/

namespace Policy

theorem offence?_eq_some_iff (p : Policy) (o : Offence) : p.offence? = some o ↔ p.Reports o := by
  have hversion : (!supportedVersions.contains p.apiVersion) = true ↔
      p.apiVersion ∉ supportedVersions := by simp
  unfold offence?
  constructor
  · intro h
    split_ifs at h with hunknown hkind
    · cases h
      exact .version (hversion.mp hunknown)
    · cases h
      exact .kind (not_not.mp (mt hversion.mpr hunknown)) hkind
    · obtain ⟨earlier, r, later, offence, hrules, hearlier, hr, rfl⟩ :=
        (Rule.firstOffence?_eq_some_iff 0 p.rules o).mp h
      rw [Nat.zero_add]
      exact .rule (not_not.mp (mt hversion.mpr hunknown)) (not_not.mp hkind) hrules hearlier hr
  · intro h
    cases h with
    | version h => rw [if_pos (hversion.mpr h)]
    | kind hknown h => rw [if_neg (mt hversion.mp (not_not.mpr hknown)), if_pos h]
    | @rule earlier later r offence hknown hkind hrules hearlier hr =>
        rw [if_neg (mt hversion.mp (not_not.mpr hknown)), if_neg (not_not.mpr hkind)]
        refine (Rule.firstOffence?_eq_some_iff 0 p.rules _).mpr ?_
        exact ⟨earlier, r, later, offence, hrules, hearlier, hr, by rw [Nat.zero_add]⟩

/-- The rules behind the first one that is refused may be any others. -/
theorem Reports.of_take {p q : Policy} {place : ℕ} {o : Rule.Offence}
    (h : p.Reports (.rule place o)) (hversion : q.apiVersion = p.apiVersion)
    (hkind : q.kind = p.kind) (hrules : q.rules.take (place + 1) = p.rules.take (place + 1)) :
    q.Reports (.rule place o) := by
  cases h with
  | @rule earlier later r _ hknown hpolicy hp hearlier hr =>
      have htake : q.rules.take (earlier.length + 1) = earlier ++ [r] := by
        rw [hrules, hp, List.take_append, List.take_of_length_le (Nat.le_succ _)]
        simp
      have hq : q.rules = earlier ++ r :: q.rules.drop (earlier.length + 1) := by
        conv_lhs => rw [← List.take_append_drop (earlier.length + 1) q.rules, htake]
        rw [List.append_assoc, List.singleton_append]
      exact .rule (hversion ▸ hknown) (hkind ▸ hpolicy) hq hearlier hr

theorem ofYaml_eq_offence_iff {s : String} {p : Policy}
    (hread : Yaml.decodeText Policy.read s = .ok p) (o : Offence) :
    ofYaml s = .error (.offence o) ↔ p.Reports o := by
  rw [← p.offence?_eq_some_iff]
  cases hoffence : p.offence? <;> simp [ofYaml, hread, hoffence]

end Policy

/-! ## Wording -/

theorem getElem?_append_of_some {s : String} {i : ℕ} {c : Char} (h : s.toList[i]? = some c)
    (t : String) : (s ++ t).toList[i]? = some c := by
  obtain ⟨hi, -⟩ := List.getElem?_eq_some_iff.mp h
  rw [String.toList_append, List.getElem?_append_left hi, h]

theorem getLast?_append_of_some {t : String} {c : Char} (h : t.toList.getLast? = some c)
    (s : String) : (s ++ t).toList.getLast? = some c := by
  rw [String.toList_append, List.getLast?_append, h]
  rfl

/-- The digits of a number end at the colon behind them. -/
theorem eq_of_toString_colon {m n : ℕ} {s t : String}
    (h : toString m ++ ": " ++ s = toString n ++ ": " ++ t) : m = n ∧ s = t := by
  have hdigits : ∀ (k : ℕ) (u : String),
      (toString k ++ ": " ++ u).toList.takeWhile Char.isDigit = (toString k).toList := by
    intro k u
    have hk : ∀ c ∈ (toString k).toList, c.isDigit = true := by
      intro c hc
      have hlist : (toString k).toList = Nat.toDigits 10 k := (String.ofList_eq.mp rfl).symm
      exact Nat.isDigit_of_mem_toDigits (by decide) (by decide) (hlist ▸ hc)
    rw [String.append_assoc, String.toList_append, List.takeWhile_append_of_pos hk]
    simp
  have hlists : (toString m).toList = (toString n).toList := by
    rw [← hdigits m s, h, hdigits n t]
  obtain rfl : m = n := Nat.repr_injective (String.toList_inj.mp hlists)
  exact ⟨rfl, (String.append_right_inj _).mp h⟩

namespace Rule.Offence

/-- The first and the last character of the wording, by which the kinds differ. -/
def ends : Rule.Offence → Char × Char
  | mixed => ('r', 's')
  | unrooted _ => ('n', '\'')
  | innerStar _ => ('n', 'd')
  | emptyType _ => ('e', '\'')

theorem first_message (o : Rule.Offence) : o.message.toList[0]? = some o.ends.1 := by
  cases o with
  | mixed => decide
  | unrooted path =>
      exact getElem?_append_of_some (getElem?_append_of_some (c := 'n') (by decide) _) _
  | innerStar path =>
      exact getElem?_append_of_some (getElem?_append_of_some (c := 'n') (by decide) _) _
  | emptyType group =>
      exact getElem?_append_of_some (getElem?_append_of_some (c := 'e') (by decide) _) _

theorem last_message (o : Rule.Offence) : o.message.toList.getLast? = some o.ends.2 := by
  cases o with
  | mixed => decide
  | unrooted path => exact getLast?_append_of_some (c := '\'') (by decide) _
  | innerStar path => exact getLast?_append_of_some (c := 'd') (by decide) _
  | emptyType group => exact getLast?_append_of_some (c := '\'') (by decide) _

theorem message_injective : Function.Injective message := by
  intro o o' h
  have hfirst : some o.ends.1 = some o'.ends.1 := by rw [← first_message, ← first_message, h]
  have hlast : some o.ends.2 = some o'.ends.2 := by rw [← last_message, ← last_message, h]
  cases o <;> cases o' <;> simp [ends] at hfirst hlast
  · rfl
  all_goals exact congrArg _ ((String.append_right_inj _).mp ((String.append_left_inj _).mp h))

end Rule.Offence

namespace Policy.Offence

/-- The character of the wording by which the kinds differ. -/
def mark : Policy.Offence → Char
  | version _ => 'p'
  | kind _ => 'k'
  | rule _ _ => ' '

theorem mark_message (o : Policy.Offence) : o.message.toList[12]? = some o.mark := by
  cases o with
  | version v =>
      refine getElem?_append_of_some (getElem?_append_of_some ?_ _) _
      exact getElem?_append_of_some (c := 'p') (by decide) _
  | kind k =>
      exact getElem?_append_of_some (getElem?_append_of_some (c := 'k') (by decide) _) _
  | rule place o =>
      refine getElem?_append_of_some (getElem?_append_of_some ?_ _) _
      exact getElem?_append_of_some (c := ' ') (by decide) _

theorem message_rule (place : ℕ) (o : Rule.Offence) :
    (rule place o).message =
      "invalid rule at index " ++ (toString place ++ ": " ++ o.message) := by
  have hplace : "invalid rule at index " ++ toString place ++ ": " =
      "invalid rule at index " ++ (toString place ++ ": ") := String.append_assoc
  exact (congrArg (· ++ o.message) hplace).trans String.append_assoc

theorem message_injective : Function.Injective message := by
  intro o o' h
  have hmark : some o.mark = some o'.mark := by rw [← mark_message, ← mark_message, h]
  cases o with
  | version v => cases o' with
    | version v' =>
        have h' := (String.append_left_inj _).mp ((String.append_left_inj _).mp h)
        exact congrArg _ ((String.append_right_inj _).mp h')
    | kind k => cases hmark
    | rule place o => cases hmark
  | kind k => cases o' with
    | version v => cases hmark
    | kind k' => exact congrArg _ ((String.append_right_inj _).mp ((String.append_left_inj _).mp h))
    | rule place o => cases hmark
  | rule place o => cases o' with
    | version v => cases hmark
    | kind k => cases hmark
    | rule place' o' =>
        rw [message_rule, message_rule] at h
        obtain ⟨rfl, hmessage⟩ := eq_of_toString_colon ((String.append_right_inj _).mp h)
        rw [Rule.Offence.message_injective hmessage]

end Policy.Offence

namespace Policy

theorem message_eq_iff {s : String} {p : Policy} (hread : Yaml.decodeText Policy.read s = .ok p)
    {refusal : Refusal} (hrefused : ofYaml s = .error refusal) (o : Offence) :
    refusal.message = o.message ↔ p.Reports o := by
  rw [← p.offence?_eq_some_iff]
  cases hoffence : p.offence? with
  | none => simp [ofYaml, hread, hoffence] at hrefused
  | some first =>
      obtain rfl : .offence first = refusal := by simpa [ofYaml, hread, hoffence] using hrefused
      rw [Option.some.injEq]
      exact Offence.message_injective.eq_iff

/-- A policy that could be read and is refused is refused for the first offence, and the wording
says for which. Of a rule, too, the first offence counts. Other rules behind the first one that is
refused change nothing about the refusal. -/
theorem ofYaml_reports {s : String} {p : Policy}
    (hread : Yaml.decodeText Policy.read s = .ok p) :
    (∀ o, ofYaml s = .error (.offence o) ↔ p.Reports o) ∧
    (∀ refusal o, ofYaml s = .error refusal →
      (refusal.message = Offence.message o ↔ p.Reports o)) ∧
    (∀ (r : Rule) o, r.offence? = some o ↔ r.Reports o) ∧
    ∀ place o, ofYaml s = .error (.offence (.rule place o)) →
      ∀ q : Policy, q.apiVersion = p.apiVersion → q.kind = p.kind →
        q.rules.take (place + 1) = p.rules.take (place + 1) →
        q.offence? = some (.rule place o) ∧
          ∀ s', Yaml.decodeText Policy.read s' = .ok q → ofYaml s' = ofYaml s := by
  refine ⟨ofYaml_eq_offence_iff hread, fun refusal o hrefused => ?_, Rule.offence?_eq_some_iff,
    fun place o hrefused q hversion hkind hrules => ?_⟩
  · exact message_eq_iff hread hrefused o
  · have hreports := (ofYaml_eq_offence_iff hread _).mp hrefused
    have hq := hreports.of_take hversion hkind hrules
    refine ⟨(q.offence?_eq_some_iff _).mpr hq, fun s' hread' => ?_⟩
    rw [hrefused, (ofYaml_eq_offence_iff hread' _).mpr hq]

/-- A policy with two rules that are refused, the first of them for its second path spec, and the
policy with another rule and one more behind that one. -/
theorem ofYaml_reports_second :
    let refused : Rule := { paths := ["*", "b*c", "d"] }
    let p : Policy := { rules := [{}, refused, { namespaces := ["n"], paths := ["/"] }] }
    let q : Policy := { rules := [{}, refused, { resources := [{ types := [""] }] }, {}] }
    ofYaml p.toYaml = .error (.offence (.rule 1 (.unrooted "b*c"))) ∧
      ofYaml q.toYaml = ofYaml p.toYaml := by
  intro refused p q
  have hread : Yaml.decodeText Policy.read p.toYaml = .ok p := p.decodeText_toYaml
  have hread' : Yaml.decodeText Policy.read q.toYaml = .ok q := q.decodeText_toYaml
  have hrefused : ofYaml p.toYaml = .error (.offence (.rule 1 (.unrooted "b*c"))) := by
    rw [ofYaml, hread]
    rfl
  obtain ⟨-, -, -, hlater⟩ := ofYaml_reports hread
  exact ⟨hrefused, (hlater 1 _ hrefused q rfl rfl rfl).2 q.toYaml hread'⟩

end Policy

end RequestAudit
