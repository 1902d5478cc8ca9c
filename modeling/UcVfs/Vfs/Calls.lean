import UcVfs.Vfs.Contract

/-!
# Starting and finishing a call

Handles and their pins move from the pool to a call and back; nothing is created or lost but
the pins that a call ends with and that go with no handle.
-/

namespace UcVfs

open Framework

variable {W : World} {F : W.Mnt → Option (FileSystem W)} {K : Pool W} {L : W.Task → Hold W}
  {i : W.Task} {s : State W}

private theorem sum_fds_update (K : Pool W) (f : Fd) (hd : Option (FdHandle W)) (m : W.Mnt) :
    ∑ g,FdHandle.pins (Function.update K.fds f hd g) m + FdHandle.pins (K.fds f) m =
      ∑ g,FdHandle.pins (K.fds g) m + FdHandle.pins hd m := by
  simpa [ledger] using ledger_update 0 0 (fun hd => FdHandle.pins hd m) K.fds f hd

private theorem sum_dirs_update (K : Pool W) (d : W.Dir) (hd : Option (DirHandle W))
    (m : W.Mnt) :
    ∑ e,DirHandle.pins (Function.update K.dirs d hd e) m + DirHandle.pins (K.dirs d) m =
      ∑ e,DirHandle.pins (K.dirs e) m + DirHandle.pins hd m := by
  simpa [ledger] using ledger_update 0 0 (fun hd => DirHandle.pins hd m) K.dirs d hd

/-- A call starts with a descriptor from the pool, with a DIR object, or with nothing. -/
inductive Begins (K : Pool W) (op : Op W) : Pool W → Hold W → Prop
  | fd {f hd} (harg : op.fdArg = some f) (hpool : K.fds f = some hd) :
      Begins K op { K with fds := Function.update K.fds f none } (Hold.ofFd f hd)
  | dir {d} (harg : op.fdArg = none) (hdir : op.dirArg = some d) :
      Begins K op { K with dirs := Function.update K.dirs d none } (Hold.ofDir d (K.dirs d))
  | nothing (hdir : op.dirArg = none ∨ op.fdArg.isSome)
      (hfd : ∀ f,op.fdArg = some f → K.fds f = none) : Begins K op K Hold.idle

theorem begins (K : Pool W) (i : W.Task) (op : Op W) :
    Begins K op (K.begin i op).1 (K.begin i op).2 := by
  cases hfd : op.fdArg with
  | some f =>
    cases hpool : K.fds f with
    | some hd => simpa only [Pool.begin,hfd,hpool] using Begins.fd hfd hpool
    | none =>
      simp only [Pool.begin,hfd,hpool]
      exact .nothing (Or.inr (by simp [hfd])) (by simpa [hfd] using hpool)
  | none =>
    cases hdir : op.dirArg with
    | some d => simpa only [Pool.begin,hfd,hdir] using Begins.dir hfd hdir
    | none =>
      simp only [Pool.begin,hfd,hdir]
      exact .nothing (Or.inl hdir) (by simp [hfd])

/-- The pins of the handle go with it. -/
theorem Begins.pins {op : Op W} {K' : Pool W} {h : Hold W} (hb : Begins K op K' h)
    (m : W.Mnt) : K'.pins m + h.pins m = K.pins m := by
  cases hb with
  | @fd f hd _ hpool =>
    have hsum := sum_fds_update K f none m
    rw [hpool] at hsum
    simp only [FdHandle.pins] at hsum
    simp only [Pool.pins,Hold.ofFd]
    simp only [FdHandle.pins]
    omega
  | @dir d _ _ =>
    have hsum := sum_dirs_update K d none m
    have hnone : DirHandle.pins (none : Option (DirHandle W)) m = 0 := rfl
    simp only [Pool.pins,Hold.ofDir]
    omega
  | nothing => simp [Hold.idle]

theorem dirHolders_eq_pool {d : W.Dir} (hno : ∀ j o,(L j).dir ≠ some (d,o)) :
    dirHolders K L d = K.dirWeight d := by
  have hzero : ∀ j,(L j).dirWeight d = 0 := by
    intro j
    cases hj : (L j).dir with
    | none => simp [Hold.dirWeight,hj]
    | some v =>
      have hne : v.1 ≠ d := fun he => hno j v.2 (by rw [hj,← he])
      simp [Hold.dirWeight,hj,hne]
  simp [dirHolders,ledger,hzero]

theorem Good.begin {op : Op W} {K' : Pool W} {h : Hold W} (hG : Good F K L s)
    (hidle : L i = Hold.idle) (hb : Begins K op K' h)
    (hdir : ∀ d,op.dirArg = some d → K.dirs d = none → ∀ j o,(L j).dir ≠ some (d,o)) :
    Good F K' (Function.update L i h) s := by
  have hpins : ∀ m,K'.pins m + h.pins m = K.pins m + (L i).pins m := by
    intro m
    have hzero : (L i).pins m = 0 := by simp [hidle,Hold.idle]
    have := hb.pins m
    omega
  have hfd₀ : (L i).fd = none := by rw [hidle]; rfl
  have hdir₀ : (L i).dir = none := by rw [hidle]; rfl
  cases hb with
  | @fd f hd harg hpool =>
    refine ⟨hG.listed,?_,?_,hG.dirs.frame rfl hdir₀.symm (fun _ _ hm => hm),?_⟩
    · exact hG.pins.transfer hpins (fun _ => rfl) (fun _ => rfl)
    · apply hG.fds.transfer _ (fun _ => rfl) (fun _ _ hm => hm)
      · intro g hd' hp
        by_cases hg : g = f
        · subst g; simp at hp
        · exact Or.inl (by simpa [hg] using hp)
      · intro g hd' hp
        obtain ⟨rfl,rfl⟩ : f = g ∧ hd = hd' := by simpa [Hold.ofFd] using hp
        exact Or.inl hpool
      · intro g
        by_cases hg : g = f
        · subst g; simp [Pool.fdWeight,Hold.fdWeight,Hold.ofFd,hpool,hfd₀]
        · simp [Pool.fdWeight,Hold.fdWeight,Hold.ofFd,hg,Ne.symm hg,hfd₀]
    · intro g hd' hp
      by_cases hg : g = f
      · subst g; simp at hp
      · exact hG.live g hd' (by simpa [hg] using hp)
  | @dir d _ hop =>
    refine ⟨hG.listed,?_,hG.fds.frame rfl hfd₀.symm (fun _ => rfl) (fun _ _ hm => hm),?_,
      hG.live⟩
    · exact hG.pins.transfer hpins (fun _ => rfl) (fun _ => rfl)
    · apply hG.dirs.transfer _ (fun _ _ hm => hm)
      · intro e hd' hp
        by_cases he : e = d
        · subst e; simp at hp
        · exact Or.inl (by simpa [he] using hp)
      · intro e hd' hp
        obtain ⟨rfl,hk⟩ : d = e ∧ K.dirs d = some hd' := by simpa [Hold.ofDir] using hp
        exact Or.inl hk
      · intro e
        have hsum := ledger_update (K.dirWeight e)
          (Pool.dirWeight { K with dirs := Function.update K.dirs d none } e)
          (Hold.dirWeight e) L i (Hold.ofDir d (K.dirs d))
        have hi : (L i).dirWeight e = 0 := by simp [Hold.dirWeight,hdir₀]
        have hold := hG.dirs.holders e
        by_cases he : e = d
        · subst e
          have hone : (Hold.ofDir d (K.dirs d)).dirWeight d = 1 := by
            simp [Hold.dirWeight,Hold.ofDir]
          have hpool : Pool.dirWeight { K with dirs := Function.update K.dirs d none } d = 0 := by
            simp [Pool.dirWeight]
          have hzero : dirHolders K L d = K.dirWeight d := by
            by_cases hk : K.dirs d = none
            · exact dirHolders_eq_pool (hdir d hop hk)
            · have hw : K.dirWeight d = 1 := by
                simp [Pool.dirWeight,Option.isSome_iff_ne_none.mpr hk]
              have := weight_le_ledger (K.dirWeight d) (Hold.dirWeight d) L i
              simp only [dirHolders] at hold ⊢
              omega
          simp only [dirHolders] at hzero ⊢
          omega
        · have hone : (Hold.ofDir d (K.dirs d)).dirWeight e = 0 := by
            simp [Hold.dirWeight,Hold.ofDir,Ne.symm he]
          have hpool : Pool.dirWeight { K with dirs := Function.update K.dirs d none } e =
              K.dirWeight e := by simp [Pool.dirWeight,he]
          simp only [dirHolders] at hold ⊢
          omega
  | nothing => exact hG.same (by rw [hidle]) (by rw [hidle]) (by rw [hidle])

/-- A call that ends with at least the pins of its handles gives them all back. -/
theorem Good.finish_pins {h : Hold W} (hG : Good F K L s) (hi : L i = h)
    (hpins : ∀ m,h.handlePins m ≤ h.pins m) (op : Op W) (r : Int) (m : W.Mnt) :
    (K.finish i op h r).pins m = K.pins m + h.pins m := by
  subst h
  have hle := hpins m
  have hfds : ∑ g,FdHandle.pins ((K.finish i op (L i) r).fds g) m =
      ∑ g,FdHandle.pins (K.fds g) m + FdHandle.pins ((L i).fd.map (·.2)) m := by
    cases hfd : (L i).fd with
    | none => simp [Pool.finish,hfd,FdHandle.pins]
    | some v =>
      have hsum := sum_fds_update K v.1 (some v.2) m
      rw [(hG.fds.sole hfd).1] at hsum
      simpa [Pool.finish,hfd,FdHandle.pins] using hsum
  have hdirs : ∑ e,DirHandle.pins ((K.finish i op (L i) r).dirs e) m =
      ∑ e,DirHandle.pins (K.dirs e) m + DirHandle.pins ((L i).dir.bind (·.2)) m := by
    rcases hdir : (L i).dir with _ | ⟨d,_ | hd⟩
    · simp [Pool.finish,hdir,DirHandle.pins]
    · simp [Pool.finish,hdir,DirHandle.pins]
    · have hsum := sum_dirs_update K d (some hd) m
      rw [(hG.dirs.sole hdir).1] at hsum
      simpa [Pool.finish,hdir,DirHandle.pins] using hsum
  have hleak : (K.finish i op (L i) r).leak m =
      K.leak m + ((L i).pins m - (L i).handlePins m) := rfl
  simp only [Pool.pins,hfds,hdirs,hleak]
  simp only [Hold.handlePins] at hle ⊢
  omega

theorem Good.finish {op : Op W} {h : Hold W} {r : Int} (hG : Good F K L s) (hi : L i = h)
    (hpins : ∀ m,h.handlePins m ≤ h.pins m)
    (hlive : ∀ f hd,h.fd = some (f,hd) → hd.fOp.isSome) :
    Good F (K.finish i op h r) (Function.update L i Hold.idle) s := by
  have hback : ∀ m,(K.finish i op h r).pins m = K.pins m + h.pins m :=
    hG.finish_pins hi hpins op r
  subst h
  refine ⟨hG.listed,?_,?_,?_,?_⟩
  · apply hG.pins.transfer _ (fun _ => rfl) (fun _ => rfl)
    intro m
    have hzero : (Hold.idle : Hold W).pins m = 0 := rfl
    have := hback m
    omega
  · apply hG.fds.transfer _ (fun _ => rfl) (fun _ _ hm => hm)
    · intro f hd hp
      cases hfd : (L i).fd with
      | none => exact Or.inl (by simpa [Pool.finish,hfd] using hp)
      | some v =>
        by_cases hf : f = v.1
        · subst f
          have hv : v.2 = hd := by simpa [Pool.finish,hfd] using hp
          exact Or.inr (by simp [← hv])
        · exact Or.inl (by simpa [Pool.finish,hfd,hf] using hp)
    · intro f hd hp
      simp [Hold.idle] at hp
    · intro f
      have hidle : (Hold.idle : Hold W).fdWeight f = 0 := by simp [Hold.fdWeight,Hold.idle]
      rw [hidle]
      cases hfd : (L i).fd with
      | none => simp [Pool.fdWeight,Pool.finish,Hold.fdWeight,hfd]
      | some v =>
        have hnone := (hG.fds.sole hfd).1
        by_cases hf : f = v.1
        · subst f; simp [Pool.fdWeight,Pool.finish,Hold.fdWeight,hfd,hnone]
        · simp [Pool.fdWeight,Pool.finish,Hold.fdWeight,hfd,hf,Ne.symm hf]
  · apply hG.dirs.transfer _ (fun _ _ hm => hm)
    · intro d hd hp
      rcases hdir : (L i).dir with _ | ⟨e,_ | hd'⟩
      · exact Or.inl (by simpa [Pool.finish,hdir] using hp)
      · exact Or.inl (by simpa [Pool.finish,hdir] using hp)
      · by_cases he : d = e
        · subst d
          have hv : hd' = hd := by simpa [Pool.finish,hdir] using hp
          exact Or.inr (by simp [hv])
        · exact Or.inl (by simpa [Pool.finish,hdir,he] using hp)
    · intro d hd hp
      simp [Hold.idle] at hp
    · intro d
      have hidle : (Hold.idle : Hold W).dirWeight d = 0 := by simp [Hold.dirWeight,Hold.idle]
      have hle := hG.dirs.holders d
      have hsum := ledger_update (K.dirWeight d) ((K.finish i op (L i) r).dirWeight d)
        (Hold.dirWeight d) L i Hold.idle
      have hpool : (K.finish i op (L i) r).dirWeight d ≤ K.dirWeight d + (L i).dirWeight d := by
        rcases hdir : (L i).dir with _ | ⟨e,_ | hd'⟩
        · simp [Pool.dirWeight,Pool.finish,hdir]
        · simp [Pool.dirWeight,Pool.finish,hdir]
        · by_cases he : d = e
          · subst d; simp [Pool.dirWeight,Pool.finish,Hold.dirWeight,hdir]
          · simp [Pool.dirWeight,Pool.finish,hdir,he]
      simp only [dirHolders] at hle ⊢
      omega
  · intro f hd hp
    cases hfd : (L i).fd with
    | none => exact hG.live f hd (by simpa [Pool.finish,hfd] using hp)
    | some v =>
      by_cases hf : f = v.1
      · subst f
        have hv : v.2 = hd := by simpa [Pool.finish,hfd] using hp
        exact hv ▸ hlive v.1 v.2 hfd
      · exact hG.live f hd (by simpa [Pool.finish,hfd,hf] using hp)

end UcVfs
