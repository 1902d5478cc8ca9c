import UcVfs.Framework.Expansion
import UcVfs.Framework.Interleaving

/-!
# Buffers that calls share

A call writes a buffer and uses it in a later action. It finds there what it has written, as long
as nobody writes something else before it has used it.
-/

namespace UcVfs.Framework

variable {Act : Type} {resp : Act → Type} {σ κ ι Op ρ τ K V : Type}

/-- Which actions write a buffer, which use one, and what is in them. -/
structure Scratch (Act σ K V : Type) where
  writes : Act → Option (K × V)
  uses : Act → Option K
  contents : σ → K → V

variable (b : Scratch Act σ K V)

/-- The program can come to use the buffer without having written it before. -/
def Prog.Awaits (k : K) : Prog resp ρ → Prop
  | .ret _ => False
  | .step x next =>
    b.uses x = some k ∨ (∀ v,b.writes x ≠ some (k,v)) ∧ ∃ r,(next r).Awaits k

namespace Scratch

variable [DecidableEq K]

/-- A call uses only what it has written, and remembers the last of it. -/
def discipline : Discipline resp (K → Option V) where
  pre h x := ∀ k,b.uses x = some k → (h k).isSome
  post _ _ _ := True
  next h x _ :=
    match b.writes x with
    | some (k,v) => Function.update h k (some v)
    | none => h

/-- The program uses no buffer that it has not written itself. -/
def Own (p : Prog resp ρ) : Prop := ∀ h,p.Obeys b.discipline (fun _ _ => True) h

/-- It also writes nothing but what is its own. -/
def Fits (own : K → V → Prop) (p : Prog resp ρ) : Prop :=
  b.Own p ∧ p.Only fun x => ∀ k v,b.writes x = some (k,v) → own k v

/-- An action changes the buffer that it writes. -/
def written (x : Act) (old : K → V) : K → V :=
  match b.writes x with
  | some (k,v) => Function.update old k v
  | none => old

/-- A buffer that another call is still going to use is not overwritten with something else. -/
def Undisturbed (c : Config resp σ κ ι Op ρ (K → Option V)) : Label resp ι Op ρ → Prop
  | .act i x _ => ∀ k v,b.writes x = some (k,v) → ∀ j op h p,j ≠ i → c.task j = .busy op h p →
      p.Awaits b k → b.contents c.shared k = v
  | _ => True

section Own

variable {b}

variable {own : K → V → Prop}

theorem fits_ret (r : ρ) : b.Fits own (.ret r : Prog resp ρ) := ⟨fun _ => trivial,trivial⟩

theorem fits_step {x : Act} {next : resp x → Prog resp ρ} (huses : b.uses x = none)
    (hwrites : b.writes x = none) (hnext : ∀ r,b.Fits own (next r)) : b.Fits own (.step x next) := by
  constructor
  · refine fun h => ⟨fun k hk => ?_,fun r _ => (hnext r).1 _⟩
    rw [huses] at hk
    cases hk
  · refine ⟨fun k v hw => ?_,fun r => (hnext r).2⟩
    rw [hwrites] at hw
    cases hw

theorem fits_act {x : Act} (huses : b.uses x = none) (hwrites : b.writes x = none) :
    b.Fits own (Prog.act x : Prog resp (resp x)) := fits_step huses hwrites fun r => fits_ret r

theorem Fits.bind {p : Prog resp ρ} {f : ρ → Prog resp τ} (hp : b.Fits own p)
    (hf : ∀ r,b.Fits own (f r)) : b.Fits own (p >>= f) :=
  ⟨fun h => Prog.Obeys.bind ((hp.1 h).mono fun h r _ => (hf r).1 h),hp.2.bind fun r => (hf r).2⟩

/-- Replacements that fit. -/
theorem fits_expand {Act' : Type} {resp' : Act' → Type} {Q : Act' → Prop}
    {f : (x : Act') → Prog resp (resp' x)} (hf : ∀ x,Q x → b.Fits own (f x)) {p : Prog resp' ρ}
    (hp : p.Only Q) : b.Fits own (p.expand f) := by
  induction p with
  | ret r => exact fits_ret r
  | step x next ih => exact (hf x hp.1).bind fun r => ih r (hp.2 r)

/-- A buffer that has been written may be used from then on. -/
theorem obeys_written {k : K} {p : Prog resp ρ} (hp : p.Only fun x => ∀ k',b.uses x = some k' → k' = k)
    {h : K → Option V} (hk : (h k).isSome) : p.Obeys b.discipline (fun _ _ => True) h := by
  induction p generalizing h with
  | ret r => trivial
  | step x next ih =>
    refine ⟨fun k' hk' => ?_,fun r _ => ih r (hp.2 r) ?_⟩
    · rw [hp.1 k' hk']
      exact hk
    · simp only [discipline]
      cases hw : b.writes x with
      | none => exact hk
      | some w =>
        by_cases he : k = w.1
        · simp [he]
        · simpa [he] using hk

/-- The buffer is written first. -/
theorem fits_first {x : Act} {next : resp x → Prog resp ρ} {k : K} {v : V}
    (huses : b.uses x = none) (hwrites : b.writes x = some (k,v))
    (hp : (Prog.step x next).Only fun x => (∀ k',b.uses x = some k' → k' = k) ∧
      ∀ k v,b.writes x = some (k,v) → own k v) : b.Fits own (.step x next) := by
  constructor
  · refine fun h => ⟨fun k' hk => ?_,fun r _ => obeys_written ((hp.2 r).imp fun _ hx => hx.1) ?_⟩
    · rw [huses] at hk
      cases hk
    · simp [discipline,hwrites]
  · exact hp.imp fun _ hx => hx.2

private theorem update_other {β : Type} {w : Option (K × V)} {f : V → β} {old : K → β} {k : K}
    (hno : ∀ v,w ≠ some (k,v)) : (match w with
      | some (k,v) => Function.update old k (f v)
      | none => old) k = old k := by
  cases w with
  | none => rfl
  | some w =>
    have hk : k ≠ w.1 := by
      rintro rfl
      exact hno w.2 rfl
    exact Function.update_of_ne hk _ _

theorem discipline_other {h : K → Option V} {x : Act} {r : resp x} {k : K}
    (hno : ∀ v,b.writes x ≠ some (k,v)) : (b.discipline : Discipline resp _).next h x r k = h k :=
  update_other hno

theorem discipline_written {h : K → Option V} {x : Act} {r : resp x} {k : K} {v : V}
    (hw : b.writes x = some (k,v)) : (b.discipline : Discipline resp _).next h x r k = some v := by
  simp only [discipline,hw]
  exact Function.update_self _ _ _

/-- A call that has not written a buffer does not wait to use it. -/
theorem not_awaits {Q : (K → Option V) → ρ → Prop} {p : Prog resp ρ} {h : K → Option V} {k : K}
    (hp : p.Obeys b.discipline Q h) (hk : h k = none) : ¬p.Awaits b k := by
  induction p generalizing h with
  | ret r => exact id
  | step x next ih =>
    rintro (huses | ⟨hno,r,hr⟩)
    · have hsome := hp.1 k huses
      rw [hk] at hsome
      cases hsome
    · exact ih r (hp.2 r trivial) ((discipline_other hno).trans hk) hr

theorem written_other {x : Act} {old : K → V} {k : K} (hno : ∀ v,b.writes x ≠ some (k,v)) :
    b.written x old k = old k := update_other hno

theorem written_self {x : Act} {old : K → V} {k : K} {v : V} (hw : b.writes x = some (k,v)) :
    b.written x old k = v := by
  rw [written,hw]
  exact Function.update_self _ _ _

end Own

section Runs

variable [DecidableEq ι] {S : System resp σ κ ι Op ρ (K → Option V)} {I : σ → Prop}
  {good : Op → Prop} {mine : Op → K → V → Prop} {c₀ c : Config resp σ κ ι Op ρ (K → Option V)}

/-- Nobody disturbs a buffer, and only good operations are called. -/
def Allowed (good : Op → Prop) (c : Config resp σ κ ι Op ρ (K → Option V))
    (l : Label resp ι Op ρ) : Prop :=
  b.Undisturbed c l ∧ ∀ i op,l = .start i op → good op

/-- A buffer is written only while no other call in progress has written it. -/
def Unshared (S : System resp σ κ ι Op ρ (K → Option V))
    (c : Config resp σ κ ι Op ρ (K → Option V)) : Label resp ι Op ρ → Prop
  | .act i x _ => ∀ w ∈ b.writes x,∀ j,j ≠ i → S.locals c j w.1 = none
  | _ => True

/-- The facts about a system that make its buffers scratch buffers. What a call of `op` writes is
`mine op`. -/
structure Serves (S : System resp σ κ ι Op ρ (K → Option V)) (I : σ → Prop) (good : Op → Prop)
    (mine : Op → K → V → Prop) : Prop where
  next : (b.discipline).next = S.next
  begin : ∀ pool i op,(S.begin pool i op).2 = fun _ => none
  exec : ∀ i x s r s',I s → S.exec i x s = some (r,s') →
    I s' ∧ b.contents s' = b.written x (b.contents s)
  prog : ∀ op,good op → b.Fits (mine op) (S.prog op)

variable {b}

/-- Every call keeps to what it has written itself. -/
theorem Serves.inv (hS : b.Serves S I good mine) (hidle : ∀ i,c₀.task i = .idle) (hI : I c₀.shared)
    (hc : S.Reachable (b.Allowed good) c₀ c) :
    S.Inv b.discipline (fun _ _ _ => True) (fun _ _ s => I s) c := by
  refine System.invariant hS.next ?_ ?_ ?_ ⟨hI,?_⟩ hc
  · exact fun c i op hinv _ hok => ⟨hinv.good,(hS.prog op (hok.2 i op rfl)).1 _⟩
  · exact fun c i op h x next r s hinv _ _ _ hexec =>
      ⟨trivial,(hS.exec i x c.shared r s hinv.good hexec).1⟩
  · exact fun c i op h r hinv _ _ _ => hinv.good
  · intro i op h p hi
    rw [hidle i] at hi
    cases hi

/-- Runs in which a buffer is written only while no other call in progress has written it. -/
theorem Serves.allowed (hS : b.Serves S I good mine) (hidle : ∀ i,c₀.task i = .idle)
    (hI : I c₀.shared) {ok : Config resp σ κ ι Op ρ (K → Option V) → Label resp ι Op ρ → Prop}
    (hok : ∀ c l,ok c l → b.Unshared S c l ∧ ∀ i op,l = .start i op → good op)
    (hc : S.Reachable ok c₀ c) : S.Reachable (b.Allowed good) c₀ c := by
  induction hc with
  | init => exact .init
  | @step c l c' _ hl hstep ih =>
    obtain ⟨hunshared,hstart⟩ := hok c l hl
    refine .step ih ⟨?_,hstart⟩ hstep
    cases l with
    | act i x r =>
      intro k v hw j op h p hj hbusy hp
      have hnone := hunshared (k,v) hw j hj
      rw [System.locals_busy hbusy] at hnone
      exact absurd hp (not_awaits ((hS.inv hidle hI ih).obeys j op h p hbusy) hnone)
    | start | finish => trivial

/-- What a call has written is in the buffer for as long as the call waits to use it. -/
theorem Serves.kept (hS : b.Serves S I good mine) (hidle : ∀ i,c₀.task i = .idle) (hI : I c₀.shared)
    (hc : S.Reachable (b.Allowed good) c₀ c) {j : ι} {op : Op} {h : K → Option V}
    {p : Prog resp ρ} {k : K} {v : V} (hj : c.task j = .busy op h p) (hp : p.Awaits b k)
    (hk : h k = some v) : b.contents c.shared k = v := by
  refine System.Reachable.busy (P := fun s _ h p => ∀ k v,p.Awaits b k → h k = some v →
    b.contents s k = v) hidle ?_ ?_ ?_ hc hj k v hp hk
  · intro c i op _ k v _ hk
    rw [hS.begin] at hk
    cases hk
  · intro c i op h x next r s hc _ hexec hP k v hp hk
    rw [(hS.exec i x c.shared r s (hS.inv hidle hI hc).good hexec).2]
    rw [← hS.next] at hk
    by_cases hw : ∃ w,b.writes x = some (k,w)
    · obtain ⟨w,hw⟩ := hw
      rw [discipline_written hw] at hk
      rw [written_self hw]
      exact Option.some.inj hk
    · have hno : ∀ w,b.writes x ≠ some (k,w) := not_exists.mp hw
      rw [discipline_other hno] at hk
      rw [written_other hno]
      exact hP k v (Or.inr ⟨hno,r,hp⟩) hk
  · intro c i x r s j op h p hc hok hexec hji hj hP k v hp hk
    rw [(hS.exec i x c.shared r s (hS.inv hidle hI hc).good hexec).2]
    by_cases hw : ∃ w,b.writes x = some (k,w)
    · obtain ⟨w,hw⟩ := hw
      rw [written_self hw,← hok.1 k w hw j op h p hji hj hp]
      exact hP k v hp hk
    · rw [written_other (not_exists.mp hw)]
      exact hP k v hp hk

/-- What a call has written and still writes is its own. -/
theorem Serves.own (hS : b.Serves S I good mine) (hidle : ∀ i,c₀.task i = .idle)
    (hc : S.Reachable (b.Allowed good) c₀ c) {j : ι} {op : Op} {h : K → Option V}
    {p : Prog resp ρ} (hj : c.task j = .busy op h p) :
    (∀ k v,h k = some v → mine op k v) ∧
      p.Only fun x => ∀ k v,b.writes x = some (k,v) → mine op k v := by
  refine System.Reachable.busy (P := fun _ op h p => (∀ k v,h k = some v → mine op k v) ∧
    p.Only fun x => ∀ k v,b.writes x = some (k,v) → mine op k v) hidle ?_ ?_ ?_ hc hj
  · refine fun c i op hok => ⟨fun k v hk => ?_,(hS.prog op (hok.2 i op rfl)).2⟩
    rw [hS.begin] at hk
    cases hk
  · rintro c i op h x next r s _ _ _ ⟨hold,honly⟩
    refine ⟨fun k v hk => ?_,honly.2 r⟩
    rw [← hS.next] at hk
    by_cases hw : ∃ w,b.writes x = some (k,w)
    · obtain ⟨w,hw⟩ := hw
      rw [discipline_written hw] at hk
      exact honly.1 k v (Option.some.inj hk ▸ hw)
    · rw [discipline_other (not_exists.mp hw)] at hk
      exact hold k v hk
  · exact fun c i x r s j op h p _ _ _ _ _ hP => hP

/-- A call that is about to use a buffer finds what it has written last, which is its own. -/
theorem Serves.found (hS : b.Serves S I good mine) (hidle : ∀ i,c₀.task i = .idle)
    (hI : I c₀.shared) (hc : S.Reachable (b.Allowed good) c₀ c) {i : ι} {op : Op}
    {h : K → Option V} {x : Act} {next : resp x → Prog resp ρ} {k : K}
    (hi : c.task i = .busy op h (.step x next)) (hx : b.uses x = some k) :
    h k = some (b.contents c.shared k) ∧ mine op k (b.contents c.shared k) := by
  have hsome := ((hS.inv hidle hI hc).obeys i op h _ hi).1 k hx
  obtain ⟨v,hv⟩ := Option.isSome_iff_exists.mp hsome
  rw [hS.kept hidle hI hc hi (Or.inl hx) hv]
  exact ⟨hv,(hS.own hidle hc hi).1 k v hv⟩

end Runs

end Scratch

end UcVfs.Framework
