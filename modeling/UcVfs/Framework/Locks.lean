import UcVfs.Framework.Expansion
import Mathlib.Data.Nat.Notation

/-!
# Locks and who holds them

How deep a task has nested each of its locks, as a discipline for programs: a lock that is
given back must be held, and some actions need a lock. Nothing is said about other tasks, so a
program that keeps its locks does so in every interleaving.
-/

namespace UcVfs.Framework

variable {Act : Type} {resp : Act → Type} {L ρ τ : Type} [DecidableEq L]

/-- What an action does to the locks. -/
inductive LockEvent (L : Type)
  | none
  | lock (l : L)
  | unlock (l : L)
  /-- An access that the lock protects. -/
  | guarded (l : L)

namespace LockEvent

def Allowed (h : L → ℕ) : LockEvent L → Prop
  | none | lock _ => True
  | unlock l | guarded l => 0 < h l

def after (h : L → ℕ) : LockEvent L → L → ℕ
  | none | guarded _ => h
  | lock l => Function.update h l (h l + 1)
  | unlock l => Function.update h l (h l - 1)

theorem unlock_after_lock (h : L → ℕ) (l : L) :
    (unlock l).after (Function.update h l (h l + 1)) = h := by simp [after]

end LockEvent

/-- The rules for locks, with what is known about the answers. -/
def lockRules (event : Act → LockEvent L) (post : (x : Act) → resp x → Prop) :
    Discipline resp (L → ℕ) where
  pre h x := (event x).Allowed h
  post _ x r := post x r
  next h x _ := (event x).after h

section Rules

variable {event : Act → LockEvent L} {post : (x : Act) → resp x → Prop} {P : (L → ℕ) → Prop}

open Prog

theorem keeps_none {x : Act} (hx : event x = .none) :
    (act x : Prog resp (resp x)).Keeps (lockRules event post) P := by
  apply keeps_act
  · intro h _
    show (event x).Allowed h
    rw [hx]
    trivial
  · intro h r
    show (event x).after h = h
    rw [hx]
    rfl

theorem keeps_guarded {x : Act} {l : L} (hx : event x = .guarded l) :
    (act x : Prog resp (resp x)).Keeps (lockRules event post) fun h => 0 < h l := by
  apply keeps_act
  · intro h hl
    show (event x).Allowed h
    rw [hx]
    exact hl
  · intro h r
    show (event x).after h = h
    rw [hx]
    rfl

/-- One action that is no event, with what is known of its answer. -/
theorem obeys_step {Q : (L → ℕ) → ρ → Prop} {x : Act} {f : resp x → Prog resp ρ} {h : L → ℕ}
    (hx : event x = .none) (hf : ∀ r,post x r → (f r).Obeys (lockRules event post) Q h) :
    (act x >>= f).Obeys (lockRules event post) Q h := by
  constructor
  · show (event x).Allowed h
    rw [hx]
    trivial
  · intro r hr
    show Obeys _ _ ((event x).after h) _
    rw [hx]
    exact hf r hr

/-- What comes after an action that is no event, for an answer that it may give. -/
theorem obeys_of_step {Q : (L → ℕ) → ρ → Prop} {x : Act} {f : resp x → Prog resp ρ} {h : L → ℕ}
    (hx : event x = .none) (hobeys : (act x >>= f).Obeys (lockRules event post) Q h) {r : resp x}
    (hr : post x r) : (f r).Obeys (lockRules event post) Q h := by
  have hrest : (f r).Obeys (lockRules event post) Q ((event x).after h) := hobeys.2 r hr
  rwa [hx] at hrest

/-- Started with `l` taken once more, the program gives it back. -/
def Releases (event : Act → LockEvent L) (post : (x : Act) → resp x → Prop) (l : L)
    (p : Prog resp ρ) : Prop :=
  ∀ h,p.Obeys (lockRules event post) (fun h' _ => h' = h) (Function.update h l (h l + 1))

theorem releases_unlock {y : Act} {l : L} {f : resp y → Prog resp ρ} (hy : event y = .unlock l)
    (hf : ∀ r,(f r).Keeps (lockRules event post) fun _ => True) :
    Releases event post l (act y >>= f) := by
  intro h
  have hheld : 0 < Function.update h l (h l + 1) l := by simp
  have hback : (event y).after (Function.update h l (h l + 1)) = h := by
    rw [hy,LockEvent.unlock_after_lock]
  constructor
  · show (event y).Allowed (Function.update h l (h l + 1))
    rw [hy]
    exact hheld
  · intro r _
    show Obeys _ _ ((event y).after (Function.update h l (h l + 1))) _
    rw [hback]
    exact hf r h trivial

/-- What is done while the lock is held. -/
theorem releases_bind {l : L} {p : Prog resp ρ} {f : ρ → Prog resp τ}
    (hp : p.Keeps (lockRules event post) fun h => 0 < h l)
    (hf : ∀ r,Releases event post l (f r)) : Releases event post l (p >>= f) := by
  intro h
  have hheld : 0 < Function.update h l (h l + 1) l := by simp
  apply Obeys.bind
  apply (hp _ hheld).mono
  intro h' r hsame
  rw [hsame]
  exact hf r h

/-- One action while the lock is held, with what is known of its answer. -/
theorem releases_step {x : Act} {l : L} {f : resp x → Prog resp ρ} (hx : event x = .none)
    (hf : ∀ r,post x r → Releases event post l (f r)) : Releases event post l (act x >>= f) :=
  fun h => obeys_step hx fun r hr => hf r hr h

/-- An access that the held lock protects. -/
theorem releases_guarded {x : Act} {l : L} {f : resp x → Prog resp ρ} (hx : event x = .guarded l)
    (hf : ∀ r,Releases event post l (f r)) : Releases event post l (act x >>= f) :=
  releases_bind (keeps_guarded hx) hf

/-- What is done under a lock that is given back afterwards. -/
theorem keeps_locked {x : Act} {l : L} {f : resp x → Prog resp ρ} (hx : event x = .lock l)
    (hf : ∀ r,Releases event post l (f r)) :
    (act x >>= f).Keeps (lockRules event post) fun _ => True := by
  intro h _
  have hlock : (event x).after h = Function.update h l (h l + 1) := by rw [hx]; rfl
  constructor
  · show (event x).Allowed h
    rw [hx]
    trivial
  · intro r _
    show Obeys _ _ ((event x).after h) _
    rw [hlock]
    exact hf r h

end Rules

end UcVfs.Framework
