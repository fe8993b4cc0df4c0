import RequestAudit.Json.Places
import RequestAudit.Policy.Document
import RequestAudit.Yaml.Places

/-!
# What readings result in

A reading either fails or has a result, and a failure at a place has none. What every part of a
record ensures of it, the reading of the record ensures, in whatever notation the record stands.
So every stage of a policy that was read is the stage of its name.
-/

namespace RequestAudit

namespace Document

/-- The results that computations of a monad can have. -/
class Outcomes (m : Type → Type) [Monad m] where
  Gives {α : Type} : m α → α → Prop
  of_pure {α : Type} {a b : α} : Gives (pure a) b → b = a
  of_bind {α β : Type} {x : m α} {f : α → m β} {b : β} :
    Gives (x >>= f) b → ∃ a, Gives x a ∧ Gives (f a) b
  of_map {α β : Type} {x : m α} {f : α → β} {b : β} : Gives (f <$> x) b → ∃ a, Gives x a ∧ f a = b

/-- A source whose refusals have no result. -/
class FirmSource (V : Type) (m : outParam (Type → Type)) [Monad m] [Source V m] [Outcomes m] :
    Prop where
  not_gives_refuse {α : Type} (place : V) (fault : Fault) (a : α) :
    ¬Outcomes.Gives (Source.refuse place fault : m α) a

/-- Every result of the computation satisfies `P`. -/
def Ensures {m : Type → Type} [Monad m] [Outcomes m] {α : Type} (P : α → Prop) (x : m α) : Prop :=
  ∀ a, Outcomes.Gives x a → P a

section Ensures

variable {m : Type → Type} [Monad m] [Outcomes m] {α β : Type} {P : α → Prop} {Q : β → Prop}

theorem ensures_true (x : m α) : Ensures (fun _ => True) x := fun _ _ => trivial

theorem ensures_pure {a : α} (h : P a) : Ensures P (pure a : m α) := by
  intro b hb
  rwa [Outcomes.of_pure hb]

theorem Ensures.bind {x : m α} {f : α → m β} (hx : Ensures P x) (hf : ∀ a, P a → Ensures Q (f a)) :
    Ensures Q (x >>= f) := by
  intro b hb
  obtain ⟨a, ha, hfa⟩ := Outcomes.of_bind hb
  exact hf a (hx a ha) b hfa

theorem Ensures.map {x : m α} {f : α → β} (hx : Ensures P x) (hf : ∀ a, P a → Q (f a)) :
    Ensures Q (f <$> x) := by
  intro b hb
  obtain ⟨a, ha, rfl⟩ := Outcomes.of_map hb
  exact hf a (hx a ha)

theorem ensures_mapM {γ : Type} {f : γ → m α} (hf : ∀ c, Ensures P (f c)) (cs : List γ) :
    Ensures (fun as => ∀ a ∈ as, P a) (cs.mapM' f) := by
  induction cs with
  | nil => exact ensures_pure (by simp)
  | cons c cs ih =>
      refine (hf c).bind fun a ha => ih.bind fun as has => ensures_pure ?_
      simpa using ⟨ha, has⟩

end Ensures

section Records

variable {V : Type} {m : Type → Type} [Monad m] [Outcomes m] {α R : Type} {P : R → Prop}

/-- Reading the field keeps `P`. -/
def Field.Keeps (P : R → Prop) (f : Field V m R) : Prop :=
  ∀ place, Ensures (fun change => ∀ r, P r → P (change r)) (f.read place)

theorem keeps_field {Q : α → Prop} {name : String} {presence : Presence} {read : V → m α}
    {set : α → R → R} (hread : ∀ x, Ensures Q (read x)) (hset : ∀ a, Q a → ∀ r, P r → P (set a r)) :
    (field name presence read set).Keeps P :=
  fun place => (hread place).map hset

theorem keeps_field_of_set {name : String} {presence : Presence} {read : V → m α}
    {set : α → R → R} (hset : ∀ a r, P r → P (set a r)) : (field name presence read set).Keeps P :=
  keeps_field (fun _ => ensures_true _) fun a _ r hr => hset a r hr

variable [Source V m]

theorem ensures_readList [LawfulMonad m] {Q : α → Prop} {read : V → m α}
    (h : ∀ x, Ensures Q (read x)) (place : V) :
    Ensures (fun as => ∀ a ∈ as, Q a) (readList read place) := by
  refine (ensures_true _).bind fun xs _ => ?_
  rw [← List.mapM'_eq_mapM]
  exact ensures_mapM h xs

variable [FirmSource V m] {fields : List (Field V m R)}

theorem ensures_refuse {Q : α → Prop} (place : V) (fault : Fault) :
    Ensures Q (Source.refuse place fault : m α) :=
  fun a ha => absurd ha (FirmSource.not_gives_refuse place fault a)

theorem ensures_readEntries (h : ∀ f ∈ fields, f.Keeps P) (record : V) (entries : List (V × V))
    (given : List String) (r : R) (hr : P r) :
    Ensures (fun q => P q.1) (readEntries record fields entries given r) := by
  induction entries generalizing given r with
  | nil => exact ensures_pure hr
  | cons e entries ih =>
      obtain ⟨k, x⟩ := e
      refine (ensures_true _).bind fun name _ => ?_
      cases hfind : fields.find? (·.name == name) with
      | none => exact (ensures_true _).bind fun _ _ => ih given r hr
      | some f =>
          simp only
          split
          · exact ensures_refuse record _
          · exact (h f (List.mem_of_find?_eq_some hfind) x).bind fun change hchange =>
              ih (name :: given) (change r) (hchange r hr)

theorem ensures_readItems (h : ∀ f ∈ fields, f.Keeps P) (record : V) (expected : String)
    (place count : Nat) (items : List V) (r : R) (hr : P r) :
    Ensures P (readItems record expected place count fields items r) := by
  induction fields generalizing place count items r with
  | nil => exact (ensures_true _).bind fun _ _ => ensures_pure hr
  | cons f fields ih =>
      have hrest : ∀ g ∈ fields, g.Keeps P := fun g hg => h g (List.mem_cons_of_mem f hg)
      cases items with
      | nil =>
          rw [readItems]
          split
          · exact ih hrest _ _ _ r hr
          · exact ensures_refuse record _
      | cons x items =>
          exact (h f List.mem_cons_self x).bind fun change hchange =>
            ih hrest _ _ _ (change r) (hchange r hr)

/-- A record that begins with `P` and whose fields keep it is read with `P`. -/
theorem ensures_readRecord {name : String} {blank : R} (h : ∀ f ∈ fields, f.Keeps P)
    (hblank : P blank) (place : V) : Ensures P (readRecord name blank fields place) := by
  refine (ensures_true _).bind fun record _ => (ensures_true _).bind fun layout _ => ?_
  cases layout with
  | named entries =>
      refine (ensures_readEntries h record entries [] blank hblank).bind fun q hq => ?_
      obtain ⟨r, given⟩ := q
      simp only
      cases absent? fields given with
      | none => exact ensures_pure hq
      | some f => exact ensures_refuse record _
  | positional items => exact ensures_readItems h record _ _ _ _ blank hblank

end Records

/-! ## The two notations -/

instance {ε : Type} : Outcomes (Except ε) where
  Gives x a := x = .ok a
  of_pure h := (Except.ok.inj h).symm
  of_bind {_ _ x f b} h := by
    cases x with
    | error fault => cases h
    | ok a => exact ⟨a, rfl, h⟩
  of_map {_ _ x f b} h := by
    cases x with
    | error fault => cases h
    | ok a => exact ⟨a, rfl, Except.ok.inj h⟩

instance : FirmSource Json.Place (Except Fault) where
  not_gives_refuse _ _ _ h := by cases h

instance : Outcomes Yaml.Reading where
  Gives x a := ∃ d n n', x d n = .ok (a, n')
  of_pure := by
    rintro _ a b ⟨d, n, n', h⟩
    exact (congrArg Prod.fst (Except.ok.inj h)).symm
  of_bind := by
    rintro _ _ x f b ⟨d, n, n', h⟩
    cases hx : x d n with
    | error problem =>
        have h' : (x d n >>= fun q => f q.1 d q.2) = .ok (b, n') := h
        rw [hx] at h'
        cases h'
    | ok q =>
        have h' : (x d n >>= fun q => f q.1 d q.2) = .ok (b, n') := h
        rw [hx] at h'
        exact ⟨q.1, ⟨d, n, q.2, hx⟩, d, q.2, n', h'⟩
  of_map := by
    rintro _ _ x f b ⟨d, n, n', h⟩
    have h' : (x d n >>= fun q => pure (f q.1, q.2)) = Except.ok (b, n') := h
    cases hx : x d n with
    | error problem =>
        rw [hx] at h'
        cases h'
    | ok q =>
        rw [hx] at h'
        exact ⟨q.1, ⟨d, n, q.2, hx⟩, congrArg Prod.fst (Except.ok.inj h')⟩

instance : FirmSource Yaml.Place Yaml.Reading where
  not_gives_refuse := by
    rintro _ p fault a ⟨d, n, n', h⟩
    cases h

end Document

open Document

theorem Document.ensures_of_end {ε α : Type} {P : α → Prop} {a : α} (ha : P a) (isEnd : Bool)
    (e : ε) : Ensures P (if isEnd then pure a else throw e : Except ε α) := by
  split
  · exact ensures_pure ha
  · rintro b hb
    cases hb

/-- What a text says has what every reading ensures. -/
theorem Json.of_decodeText {α : Type} {P : α → Prop} {read : Place → Except Fault α}
    (hread : ∀ x, Ensures P (read x)) {s : String} {a : α} (h : decodeText read s = .ok a) :
    P a := by
  obtain ⟨b, hb, hend⟩ := Outcomes.of_bind (m := Except Fault) h
  exact ensures_of_end (hread _ b hb) _ _ a hend

theorem Yaml.of_decodeText {α : Type} {P : α → Prop} {read : Place → Reading α}
    (hread : ∀ x, Ensures P (read x)) {s : String} {a : α} (h : decodeText read s = .ok a) :
    P a := by
  obtain ⟨⟨b, n⟩, hb, hend⟩ := Outcomes.of_bind (m := Except Problem) h
  exact ensures_of_end (hread _ b ⟨_, _, n, hb⟩) _ _ a hend

end RequestAudit
