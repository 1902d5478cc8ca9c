import UcVfs.Vfs.Holdings

/-!
# Ledgers of pins, descriptors and DIR objects

Three independent invariants relate the bookkeeping to the state: `open_files` counts the
pins, a table entry is in use exactly when someone holds its descriptor, and a DIR object has
at most one holder. For each, the lemmas say what one step may do to it.
-/

namespace UcVfs

open Framework

variable {W : World}

structure File.Matches (e : File W) (hd : FdHandle W) : Prop where
  tcb : e.tcb.isSome
  mp : e.mp = some hd.mp
  fOp : e.fOp = hd.fOp
  flags : e.flags = hd.flags

structure DirObj.Matches (o : DirObj W) (hd : DirHandle W) : Prop where
  mp : o.mp = some hd.mp
  dOp : o.dOp = some hd.dOp

/-- `open_files` is the number of pins modulo its width. The file systems are those of `F`,
and a pinned mount has one. -/
structure PinsGood (F : W.Mnt → Option (FileSystem W)) (K : Pool W) (L : W.Task → Hold W)
    (mounts : W.Mnt → Mount W) : Prop where
  fs : ∀ m,(mounts m).fs = F m
  count : ∀ m,(mounts m).openFiles = UInt16.ofNat (totalPins K L m)
  pinned : ∀ m,0 < totalPins K L m → (F m).isSome

structure FdsGood (K : Pool W) (L : W.Task → Hold W) (files : Fd → File W) : Prop where
  holders : ∀ f,fdHolders K L f = if (files f).tcb.isSome then 1 else 0
  pool : ∀ f hd,K.fds f = some hd → (files f).Matches hd
  task : ∀ i f hd,(L i).fd = some (f,hd) → (files f).Matches hd

structure DirsGood (K : Pool W) (L : W.Task → Hold W) (dirs : W.Dir → DirObj W) : Prop where
  holders : ∀ d,dirHolders K L d ≤ 1
  pool : ∀ d hd,K.dirs d = some hd → (dirs d).Matches hd
  task : ∀ i d hd,(L i).dir = some (d,some hd) → (dirs d).Matches hd

section Pins

variable {F : W.Mnt → Option (FileSystem W)} {K K' : Pool W} {L : W.Task → Hold W}
  {mounts mounts' : W.Mnt → Mount W} {i : W.Task} {h : Hold W}

/-- Pins move between a call and the pool. -/
theorem PinsGood.transfer (hG : PinsGood F K L mounts)
    (hpins : ∀ m,K'.pins m + h.pins m = K.pins m + (L i).pins m)
    (hfs : ∀ m,(mounts' m).fs = (mounts m).fs)
    (hopen : ∀ m,(mounts' m).openFiles = (mounts m).openFiles) :
    PinsGood F K' (Function.update L i h) mounts' := by
  have htotal : ∀ m,totalPins K' (Function.update L i h) m = totalPins K L m :=
    fun m => ledger_eq (hpins m)
  refine ⟨fun m => (hfs m).trans (hG.fs m),?_,?_⟩
  · intro m
    rw [htotal,hopen,hG.count]
  · intro m hm
    rw [htotal] at hm
    exact hG.pinned m hm

theorem PinsGood.pin {m : W.Mnt} {s : State W} (hG : PinsGood F K L s.mounts)
    (hF : (F m).isSome) (hpins : h.pins = (L i).pins + one m) :
    PinsGood F K (Function.update L i h) (s.pin m).mounts := by
  have htotal : ∀ n,totalPins K (Function.update L i h) n = totalPins K L n + one m n := by
    intro n
    have := ledger_update (K.pins n) (K.pins n) (fun h => h.pins n) L i h
    simp only [hpins,Pi.add_apply] at this
    simp only [totalPins]
    omega
  refine ⟨?_,?_,?_⟩
  · intro n
    by_cases hn : n = m
    · subst n; simpa [State.pin,State.modifyMount] using hG.fs m
    · simpa [State.pin,State.modifyMount,hn] using hG.fs n
  · intro n
    rw [htotal]
    by_cases hn : n = m
    · subst n; simp [State.pin,State.modifyMount,hG.count]
    · simp [State.pin,State.modifyMount,hn,one_of_ne,hG.count]
  · intro n hn
    rw [htotal] at hn
    by_cases hnm : n = m
    · exact hnm ▸ hF
    · rw [one_of_ne hnm] at hn
      refine hG.pinned n ?_
      simpa using hn

theorem PinsGood.unpin {m : W.Mnt} {s : State W} (hG : PinsGood F K L s.mounts)
    (hpos : 0 < (L i).pins m) (hpins : h.pins = (L i).pins - one m) :
    PinsGood F K (Function.update L i h) (s.unpin m).mounts := by
  have htotal : ∀ n,totalPins K L n = totalPins K (Function.update L i h) n + one m n := by
    intro n
    have := ledger_update (K.pins n) (K.pins n) (fun h => h.pins n) L i h
    simp only [hpins,Pi.sub_apply] at this
    simp only [totalPins]
    by_cases hn : n = m
    · subst n
      rw [one_self] at this ⊢
      omega
    · rw [one_of_ne hn] at this ⊢
      omega
  refine ⟨?_,?_,?_⟩
  · intro n
    by_cases hn : n = m
    · subst n; simpa [State.unpin,State.modifyMount] using hG.fs m
    · simpa [State.unpin,State.modifyMount,hn] using hG.fs n
  · intro n
    have hcount := hG.count n
    rw [htotal] at hcount
    by_cases hn : n = m
    · subst n
      rw [one_self] at hcount
      simp [State.unpin,State.modifyMount,hcount]
    · rw [one_of_ne hn] at hcount
      simpa [State.unpin,State.modifyMount,hn] using hcount
  · intro n hn
    refine hG.pinned n ?_
    rw [htotal]
    omega

end Pins

section Fds

variable {K K' : Pool W} {L : W.Task → Hold W} {files files' : Fd → File W} {i : W.Task}
  {h : Hold W}

/-- A descriptor moves between a call and the pool; its entry keeps what the handle says. -/
theorem FdsGood.transfer (hG : FdsGood K L files)
    (hweight : ∀ f,K'.fdWeight f + h.fdWeight f = K.fdWeight f + (L i).fdWeight f)
    (htcb : ∀ f,(files' f).tcb = (files f).tcb)
    (hkeep : ∀ f hd,(files f).Matches hd → (files' f).Matches hd)
    (hpool : ∀ f hd,K'.fds f = some hd → K.fds f = some hd ∨ (L i).fd = some (f,hd))
    (htask : ∀ f hd,h.fd = some (f,hd) → K.fds f = some hd ∨ (L i).fd = some (f,hd)) :
    FdsGood K' (Function.update L i h) files' := by
  have hold : ∀ f hd,K.fds f = some hd ∨ (L i).fd = some (f,hd) → (files' f).Matches hd := by
    intro f hd hor
    rcases hor with hp | ht
    · exact hkeep f hd (hG.pool f hd hp)
    · exact hkeep f hd (hG.task i f hd ht)
  refine ⟨?_,fun f hd hp => hold f hd (hpool f hd hp),?_⟩
  · intro f
    rw [htcb,← hG.holders]
    exact ledger_eq (hweight f)
  · intro j f hd hj
    by_cases hji : j = i
    · subst j
      rw [Function.update_self] at hj
      exact hold f hd (htask f hd hj)
    · rw [Function.update_of_ne hji] at hj
      exact hkeep f hd (hG.task j f hd hj)

/-- A step that touches no handle and no descriptor. -/
theorem FdsGood.frame (hG : FdsGood K L files) (hK : K'.fds = K.fds) (hfd : h.fd = (L i).fd)
    (htcb : ∀ f,(files' f).tcb = (files f).tcb)
    (hkeep : ∀ f hd,(files f).Matches hd → (files' f).Matches hd) :
    FdsGood K' (Function.update L i h) files' := by
  refine hG.transfer ?_ htcb hkeep (fun _ _ hp => Or.inl (hK ▸ hp)) ?_
  · intro f
    simp only [Pool.fdWeight,hK,Hold.fdWeight,hfd]
  · intro f hd ht
    exact Or.inr (hfd ▸ ht)

/-- The only holder of a descriptor is the call that holds it. -/
theorem FdsGood.sole {f : Fd} {hd : FdHandle W} (hG : FdsGood K L files)
    (hi : (L i).fd = some (f,hd)) :
    K.fds f = none ∧ ∀ j hd',(L j).fd = some (f,hd') → j = i := by
  have hle : fdHolders K L f ≤ 1 := by
    rw [hG.holders]
    split <;> omega
  have hone : (L i).fdWeight f = 1 := by simp [Hold.fdWeight,hi]
  have hsum := weight_le_ledger (K.fdWeight f) (Hold.fdWeight f) L i
  simp only [fdHolders] at hle
  constructor
  · by_contra hne
    have : K.fdWeight f = 1 := by simp [Pool.fdWeight,Option.isSome_iff_ne_none.mpr hne]
    omega
  · intro j hd' hj
    by_contra hji
    have hj1 : (L j).fdWeight f = 1 := by simp [Hold.fdWeight,hj]
    have := weight_add_le_ledger (K.fdWeight f) (Hold.fdWeight f) L (Ne.symm hji)
    omega

/-- Nobody holds the descriptor of a free entry. -/
theorem FdsGood.free {f : Fd} (hG : FdsGood K L files) (hf : (files f).tcb = none) :
    K.fds f = none ∧ ∀ j hd,(L j).fd ≠ some (f,hd) := by
  constructor
  · by_contra hne
    obtain ⟨hd,hp⟩ := Option.ne_none_iff_exists'.mp hne
    simpa [hf] using (hG.pool f hd hp).tcb
  · intro j hd hj
    simpa [hf] using (hG.task j f hd hj).tcb

theorem FdsGood.init {f : Fd} {hd : FdHandle W} (hG : FdsGood K L files)
    (hfree : (files f).tcb = none) (hnone : (L i).fd = none) (hfd : h.fd = some (f,hd))
    (hnew : (files' f).Matches hd) (hother : ∀ g,g ≠ f → files' g = files g) :
    FdsGood K (Function.update L i h) files' := by
  obtain ⟨hpool,htask⟩ := hG.free hfree
  refine ⟨?_,?_,?_⟩
  · intro g
    have hsum := ledger_update (K.fdWeight g) (K.fdWeight g) (Hold.fdWeight g) L i h
    have hold := hG.holders g
    simp only [fdHolders] at hold ⊢
    have hi : (L i).fdWeight g = 0 := by simp [Hold.fdWeight,hnone]
    by_cases hg : g = f
    · subst g
      have hh : h.fdWeight f = 1 := by simp [Hold.fdWeight,hfd]
      simp only [hfree,Option.isSome_none,Bool.false_eq_true,if_false] at hold
      simp only [hnew.tcb,if_true]
      omega
    · have hh : h.fdWeight g = 0 := by simp [Hold.fdWeight,hfd,Ne.symm hg]
      rw [hother g hg]
      omega
  · intro g hd' hp
    by_cases hg : g = f
    · subst g
      simp [hpool] at hp
    · rw [hother g hg]
      exact hG.pool g hd' hp
  · intro j g hd' hj
    by_cases hji : j = i
    · subst j
      rw [Function.update_self,hfd] at hj
      obtain ⟨rfl,rfl⟩ : f = g ∧ hd = hd' := by simpa using hj
      exact hnew
    · rw [Function.update_of_ne hji] at hj
      have hg : g ≠ f := fun he => htask j hd' (he ▸ hj)
      rw [hother g hg]
      exact hG.task j g hd' hj

theorem FdsGood.clear {f : Fd} {hd : FdHandle W} (hG : FdsGood K L files)
    (hi : (L i).fd = some (f,hd)) (hfd : h.fd = none) (hfree : (files' f).tcb = none)
    (hother : ∀ g,g ≠ f → files' g = files g) : FdsGood K (Function.update L i h) files' := by
  obtain ⟨hpool,htask⟩ := hG.sole hi
  refine ⟨?_,?_,?_⟩
  · intro g
    have hsum := ledger_update (K.fdWeight g) (K.fdWeight g) (Hold.fdWeight g) L i h
    have hold := hG.holders g
    simp only [fdHolders] at hold ⊢
    have hh : h.fdWeight g = 0 := by simp [Hold.fdWeight,hfd]
    by_cases hg : g = f
    · subst g
      have hi' : (L i).fdWeight f = 1 := by simp [Hold.fdWeight,hi]
      simp only [(hG.task i f hd hi).tcb,if_true] at hold
      simp only [hfree,Option.isSome_none,Bool.false_eq_true,if_false]
      omega
    · have hi' : (L i).fdWeight g = 0 := by simp [Hold.fdWeight,hi,Ne.symm hg]
      rw [hother g hg]
      omega
  · intro g hd' hp
    have hg : g ≠ f := by
      intro he
      subst g
      simp [hpool] at hp
    rw [hother g hg]
    exact hG.pool g hd' hp
  · intro j g hd' hj
    by_cases hji : j = i
    · subst j
      simp [hfd] at hj
    · rw [Function.update_of_ne hji] at hj
      have hg : g ≠ f := fun he => hji (htask j hd' (he ▸ hj))
      rw [hother g hg]
      exact hG.task j g hd' hj

end Fds

section Dirs

variable {K K' : Pool W} {L : W.Task → Hold W} {dirs dirs' : W.Dir → DirObj W} {i : W.Task}
  {h : Hold W}

theorem DirsGood.transfer (hG : DirsGood K L dirs)
    (hweight : ∀ d,dirHolders K' (Function.update L i h) d ≤ 1)
    (hkeep : ∀ d hd,(dirs d).Matches hd → (dirs' d).Matches hd)
    (hpool : ∀ d hd,K'.dirs d = some hd → K.dirs d = some hd ∨ (L i).dir = some (d,some hd))
    (htask : ∀ d hd,h.dir = some (d,some hd) →
      K.dirs d = some hd ∨ (L i).dir = some (d,some hd)) :
    DirsGood K' (Function.update L i h) dirs' := by
  have hold : ∀ d hd,K.dirs d = some hd ∨ (L i).dir = some (d,some hd) →
      (dirs' d).Matches hd := by
    intro d hd hor
    rcases hor with hp | ht
    · exact hkeep d hd (hG.pool d hd hp)
    · exact hkeep d hd (hG.task i d hd ht)
  refine ⟨hweight,fun d hd hp => hold d hd (hpool d hd hp),?_⟩
  intro j d hd hj
  by_cases hji : j = i
  · subst j
    rw [Function.update_self] at hj
    exact hold d hd (htask d hd hj)
  · rw [Function.update_of_ne hji] at hj
    exact hkeep d hd (hG.task j d hd hj)

theorem DirsGood.frame (hG : DirsGood K L dirs) (hK : K'.dirs = K.dirs)
    (hdir : h.dir = (L i).dir) (hkeep : ∀ d hd,(dirs d).Matches hd → (dirs' d).Matches hd) :
    DirsGood K' (Function.update L i h) dirs' := by
  refine hG.transfer ?_ hkeep (fun _ _ hp => Or.inl (hK ▸ hp)) (fun _ _ ht => Or.inr (hdir ▸ ht))
  intro d
  have heq : dirHolders K' (Function.update L i h) d = dirHolders K L d :=
    ledger_eq (by simp only [Pool.dirWeight,hK,Hold.dirWeight,hdir])
  exact heq ▸ hG.holders d

theorem DirsGood.sole {d : W.Dir} {o : Option (DirHandle W)} (hG : DirsGood K L dirs)
    (hi : (L i).dir = some (d,o)) :
    K.dirs d = none ∧ ∀ j o',(L j).dir = some (d,o') → j = i := by
  have hle := hG.holders d
  have hone : (L i).dirWeight d = 1 := by simp [Hold.dirWeight,hi]
  have hsum := weight_le_ledger (K.dirWeight d) (Hold.dirWeight d) L i
  simp only [dirHolders] at hle
  constructor
  · by_contra hne
    have : K.dirWeight d = 1 := by simp [Pool.dirWeight,Option.isSome_iff_ne_none.mpr hne]
    omega
  · intro j o' hj
    by_contra hji
    have hj1 : (L j).dirWeight d = 1 := by simp [Hold.dirWeight,hj]
    have := weight_add_le_ledger (K.dirWeight d) (Hold.dirWeight d) L (Ne.symm hji)
    omega

/-- The holder of a DIR object writes to it. -/
theorem DirsGood.set {d : W.Dir} {o o' : Option (DirHandle W)} (hG : DirsGood K L dirs)
    (hi : (L i).dir = some (d,o)) (hdir : h.dir = some (d,o'))
    (hnew : ∀ hd,o' = some hd → (dirs' d).Matches hd)
    (hother : ∀ e,e ≠ d → dirs' e = dirs e) : DirsGood K (Function.update L i h) dirs' := by
  obtain ⟨hpool,htask⟩ := hG.sole hi
  refine ⟨?_,?_,?_⟩
  · intro e
    have heq : dirHolders K (Function.update L i h) e = dirHolders K L e :=
      ledger_eq (by simp only [Hold.dirWeight,hdir,hi,Option.map_some])
    exact heq ▸ hG.holders e
  · intro e hd hp
    have he : e ≠ d := by
      intro he
      subst e
      simp [hpool] at hp
    rw [hother e he]
    exact hG.pool e hd hp
  · intro j e hd hj
    by_cases hji : j = i
    · subst j
      rw [Function.update_self,hdir] at hj
      obtain ⟨rfl,rfl⟩ : d = e ∧ o' = some hd := by simpa using hj
      exact hnew hd rfl
    · rw [Function.update_of_ne hji] at hj
      have he : e ≠ d := fun he => hji (htask j (some hd) (he ▸ hj))
      rw [hother e he]
      exact hG.task j e hd hj

end Dirs

end UcVfs
