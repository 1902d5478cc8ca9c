import UcVfs.Vfs.Runs

/-!
# Life cycle of a mount's driver

Tasks that mount, unmount and format. `vfs_umount` and `vfs_format` act on a check that they
made under the mutex after they have released it.
-/

namespace UcVfs

open Framework

variable {W : World}

/-- A successful callback of the file system of `m`. -/
def Call.succeeded (m : W.Mnt) (req : FsReq) : Call W → Bool
  | .fs n req' res => n = m ∧ req' = req ∧ 0 ≤ res
  | _ => false

/-- Since its latest successful unmount the driver has mounted `m` again; latest call first. -/
def remounted (m : W.Mnt) : List (Call W) → Bool
  | [] => true
  | call :: calls => call.succeeded m .mount || (!call.succeeded m .umount && remounted m calls)

/-- The driver never unmounts `m` successfully twice without mounting it in between. -/
def lifeCycle (m : W.Mnt) : List (Call W) → Prop
  | [] => True
  | call :: calls => lifeCycle m calls ∧ (call.succeeded m .umount → remounted m calls)

/-- Where the list must stand for a driver callback to be in order. -/
def Placed (s : State W) : Call W → Prop
  | .fs m .umount _ => s.Mounted m
  | .fs m .mount _ => ¬s.Mounted m
  | .fs m .format _ => ¬s.Mounted m
  | _ => True

instance (s : State W) (call : Call W) : Decidable (Placed s call) := by
  unfold Placed
  split <;> infer_instance

/-- Only `vfs_mount`, `vfs_umount` and `vfs_format` are called. -/
def MountsOnly : VLabel W → Prop
  | .start _ (.mount _) | .start _ (.umount _ _) | .start _ (.format _) => True
  | .start _ _ => False
  | _ => True

/-- The mount that the step puts into the list or takes out of it. -/
def moved : VLabel W → Option W.Mnt
  | .act _ (.mount mountp) r => if r = 0 then mountp else none
  | .act _ (.umount m _) r => if r = 0 then some m else none
  | _ => none

/-- The step does not move a mount that another call has checked and not yet acted on. -/
def Undisturbed (c : VConfig W) (l : VLabel W) : Prop :=
  MountsOnly l ∧ ∀ m,moved l = some m → ∀ j,j ≠ l.task →
    ((vfs W).locals c j).checked.map (·.1) ≠ some m

/-- The calls mount, unmount and format only what they have checked. -/
def checks : Discipline (Action.Resp (W := W)) (Hold W) where
  pre
    | h,.mount _ => h.checked = none
    | _,.formatCheck _ | _,.umountCheck _ | _,.fs _ | _,.fault => True
    | h,.umount m _ => h.checked = some (m,true)
    | h,.fsCall m .format => h.checked = some (m,false)
    | _,_ => False
  post
    | _,.formatCheck _,r => r ≤ 0
    | _,_,_ => True
  next := Hold.next

/-- The driver implements `mount`. -/
def HasMount (F : W.Mnt → Option (FileSystem W)) (m : W.Mnt) : Prop :=
  ((F m).bind fun fs => fs.fsCallback .mount).isSome

structure LifeGood (F : W.Mnt → Option (FileSystem W)) (_ : Pool W) (L : W.Task → Hold W)
    (s : State W) : Prop where
  listed : ∃ xs,s.Listed xs
  fs : ∀ m,(s.mounts m).fs = F m
  checked : ∀ i m b,(L i).checked = some (m,b) → (s.Mounted m ↔ b = true)
  mounts : ∀ m call,call ∈ s.calls → call.succeeded m .mount → HasMount F m
  remounted : ∀ m,HasMount F m → s.Mounted m → remounted m s.calls
  cycle : ∀ m,HasMount F m → lifeCycle m s.calls

abbrev LifeInv (F : W.Mnt → Option (FileSystem W)) (c : VConfig W) : Prop :=
  (vfs W).Inv checks (fun _ _ _ => True) (LifeGood F) c

section Effects

variable {F : W.Mnt → Option (FileSystem W)} {K : Pool W} {L : W.Task → Hold W} {s s' : State W}
  {i : W.Task} {h : Hold W} {m : W.Mnt}

/-- The callback is missing and 0 stands for its result, or it was made and recorded. -/
theorem callFs_cases (fs : FileSystem W) (m : W.Mnt) (req : FsReq) (s : State W) :
    (fs.fsCallback req = none ∧ callFs fs m req s = (0,s)) ∨
    ((fs.fsCallback req).isSome ∧
      (callFs fs m req s).2.calls = .fs m req (callFs fs m req s).1 :: s.calls) := by
  unfold callFs
  cases fs.fsCallback req with
  | none => exact Or.inl ⟨rfl,rfl⟩
  | some callback => exact Or.inr ⟨rfl,rfl⟩

private theorem checked_update (hG : LifeGood F K L s)
    (hother : ∀ j,j ≠ i → ∀ n b,(L j).checked = some (n,b) → (s'.Mounted n ↔ s.Mounted n))
    (hh : ∀ n b,h.checked = some (n,b) → (s'.Mounted n ↔ b = true)) (j : W.Task) (n : W.Mnt)
    (b : Bool) (hj : (Function.update L i h j).checked = some (n,b)) :
    s'.Mounted n ↔ b = true := by
  by_cases hji : j = i
  · subst j
    rw [Function.update_self] at hj
    exact hh n b hj
  · rw [Function.update_of_ne hji] at hj
    exact (hother j hji n b hj).trans (hG.checked j n b hj)

/-- A step that moves no mount and whose callback, if any, is no successful mount or unmount. -/
theorem LifeGood.keep (hG : LifeGood F K L s) (hl : ∃ xs,s'.Listed xs)
    (hfs : ∀ n,(s'.mounts n).fs = (s.mounts n).fs) (hmem : ∀ n,s'.Mounted n ↔ s.Mounted n)
    (hcalls : s'.calls = s.calls ∨ ∃ call,s'.calls = call :: s.calls ∧
      ∀ n,call.succeeded n .mount = false ∧ call.succeeded n .umount = false)
    (hh : ∀ n b,h.checked = some (n,b) → (s.Mounted n ↔ b = true)) :
    LifeGood F K (Function.update L i h) s' := by
  have hchecked : ∀ j n b,(Function.update L i h j).checked = some (n,b) →
      (s'.Mounted n ↔ b = true) := by
    apply checked_update hG
    · exact fun _ _ n _ _ => hmem n
    · exact fun n b hb => (hmem n).trans (hh n b hb)
  have hF : ∀ n,(s'.mounts n).fs = F n := fun n => (hfs n).trans (hG.fs n)
  rcases hcalls with he | ⟨call,he,hno⟩
  · refine ⟨hl,hF,hchecked,?_,?_,?_⟩
    · rw [he]
      exact hG.mounts
    · intro n hn hm
      rw [he]
      exact hG.remounted n hn ((hmem n).mp hm)
    · rw [he]
      exact hG.cycle
  · refine ⟨hl,hF,hchecked,?_,?_,?_⟩
    · intro n call' hc hs
      rw [he] at hc
      rcases List.mem_cons.mp hc with rfl | hc
      · simp [(hno n).1] at hs
      · exact hG.mounts n call' hc hs
    · intro n hn hm
      rw [he]
      simp [UcVfs.remounted,(hno n).2,hG.remounted n hn ((hmem n).mp hm)]
    · intro n hn
      rw [he]
      exact ⟨hG.cycle n hn,by simp [(hno n).2]⟩

theorem Call.succeeded_fs (m n : W.Mnt) (req req' : FsReq) {res : Int} (hres : 0 ≤ res) :
    (Call.fs m req res : Call W).succeeded n req' = true ↔ m = n ∧ req = req' := by
  simp [succeeded,hres]

/-- A step that appends `m` to the list. -/
theorem LifeGood.enter (hG : LifeGood F K L s) (hl : ∃ xs,s'.Listed xs)
    (hfs : ∀ n,(s'.mounts n).fs = (s.mounts n).fs)
    (hmem : ∀ n,s'.Mounted n ↔ s.Mounted n ∨ n = m)
    (hcalls : (¬HasMount F m ∧ s'.calls = s.calls) ∨
      (HasMount F m ∧ ∃ res,0 ≤ res ∧ s'.calls = .fs m .mount res :: s.calls))
    (hund : ∀ j,j ≠ i → (L j).checked.map (·.1) ≠ some m) (hh : h.checked = none) :
    LifeGood F K (Function.update L i h) s' := by
  have hchecked : ∀ j n b,(Function.update L i h j).checked = some (n,b) →
      (s'.Mounted n ↔ b = true) := by
    apply checked_update hG
    · intro j hj n b hb
      have hne : n ≠ m := by
        rintro rfl
        exact hund j hj (by simp [hb])
      simp [hmem,hne]
    · intro n b hb
      simp [hh] at hb
  refine ⟨hl,fun n => (hfs n).trans (hG.fs n),hchecked,?_,?_,?_⟩
  · intro n call hc hs
    rcases hcalls with ⟨_,he⟩ | ⟨hm,res,hres,he⟩
    · rw [he] at hc
      exact hG.mounts n call hc hs
    · rw [he] at hc
      rcases List.mem_cons.mp hc with rfl | hc
      · obtain ⟨rfl,_⟩ := (Call.succeeded_fs m n _ _ hres).mp hs
        exact hm
      · exact hG.mounts n call hc hs
  · intro n hn hm
    rcases hcalls with ⟨hno,he⟩ | ⟨_,res,hres,he⟩
    · rw [he]
      rcases (hmem n).mp hm with hm | rfl
      · exact hG.remounted n hn hm
      · exact absurd hn hno
    · rw [he]
      rcases (hmem n).mp hm with hm | rfl
      · simp [UcVfs.remounted,hG.remounted n hn hm,Call.succeeded]
      · simp [UcVfs.remounted,Call.succeeded,hres]
  · intro n hn
    rcases hcalls with ⟨_,he⟩ | ⟨_,res,hres,he⟩
    · rw [he]
      exact hG.cycle n hn
    · rw [he]
      exact ⟨hG.cycle n hn,by simp [Call.succeeded]⟩

/-- A step that takes `m` out of the list. -/
theorem LifeGood.leave (hG : LifeGood F K L s) (hl : ∃ xs,s'.Listed xs)
    (hfs : ∀ n,(s'.mounts n).fs = (s.mounts n).fs)
    (hmem : ∀ n,s'.Mounted n ↔ s.Mounted n ∧ n ≠ m) (hm : s.Mounted m)
    (hcalls : s'.calls = s.calls ∨
      ∃ res,0 ≤ res ∧ s'.calls = .fs m .umount res :: s.calls)
    (hund : ∀ j,j ≠ i → (L j).checked.map (·.1) ≠ some m) (hh : h.checked = none) :
    LifeGood F K (Function.update L i h) s' := by
  have hchecked : ∀ j n b,(Function.update L i h j).checked = some (n,b) →
      (s'.Mounted n ↔ b = true) := by
    apply checked_update hG
    · intro j hj n b hb
      have hne : n ≠ m := by
        rintro rfl
        exact hund j hj (by simp [hb])
      simp [hmem,hne]
    · intro n b hb
      simp [hh] at hb
  refine ⟨hl,fun n => (hfs n).trans (hG.fs n),hchecked,?_,?_,?_⟩
  · intro n call hc hs
    rcases hcalls with he | ⟨res,_,he⟩
    · rw [he] at hc
      exact hG.mounts n call hc hs
    · rw [he] at hc
      rcases List.mem_cons.mp hc with rfl | hc
      · simp [Call.succeeded] at hs
      · exact hG.mounts n call hc hs
  · intro n hn hmn
    obtain ⟨hold,hne⟩ := (hmem n).mp hmn
    rcases hcalls with he | ⟨res,_,he⟩
    · rw [he]
      exact hG.remounted n hn hold
    · rw [he]
      have hother : ¬m = n := fun heq => hne heq.symm
      simp [UcVfs.remounted,Call.succeeded,hother,hG.remounted n hn hold]
  · intro n hn
    rcases hcalls with he | ⟨res,hres,he⟩
    · rw [he]
      exact hG.cycle n hn
    · rw [he]
      refine ⟨hG.cycle n hn,?_⟩
      intro hs
      obtain ⟨rfl,_⟩ := (Call.succeeded_fs m n _ _ hres).mp hs
      exact hG.remounted m hn hm

/-- The step made no driver callback, or one that the list allows. -/
def Recorded (s s' : State W) : Prop :=
  s'.calls = s.calls ∨ ∃ call,s'.calls = call :: s.calls ∧ Placed s call

private theorem failed_call {req req' : FsReq} {res : Int} (hres : res < 0) (m n : W.Mnt) :
    (Call.fs m req res : Call W).succeeded n req' = false := by
  simp [Call.succeeded,hres]

/-- A callback of the region failed: nothing moved, and the failure is on record. -/
private theorem callFs_failed {fs : FileSystem W} {req : FsReq} {s₁ : State W}
    (hres : (callFs fs m req s₁).1 < 0) :
    ∃ call,(callFs fs m req s₁).2.calls = call :: s₁.calls ∧
      call = .fs m req (callFs fs m req s₁).1 ∧
      ∀ n,call.succeeded n .mount = false ∧ call.succeeded n .umount = false := by
  rcases callFs_cases fs m req s₁ with ⟨_,he⟩ | ⟨_,he⟩
  · rw [he] at hres
    exact absurd hres (lt_irrefl 0)
  · exact ⟨_,he,rfl,fun n => ⟨failed_call hres m n,failed_call hres m n⟩⟩

theorem LifeGood.mount (hG : LifeGood F K L s) {mountp : Option W.Mnt} {r : Int}
    (hpre : (L i).checked = none) (hexec : vfsMountBody mountp s = some (r,s'))
    (hund : ∀ m,mountp = some m → r = 0 → ∀ j,j ≠ i → (L j).checked.map (·.1) ≠ some m) :
    LifeGood F K (Function.update L i (L i)) s' ∧ Recorded s s' := by
  obtain ⟨xs,hxs⟩ := hG.listed
  obtain ⟨r',s'',he,ho⟩ := vfsMountBody_outcome hxs mountp
  obtain ⟨rfl,rfl⟩ : r' = r ∧ s'' = s' := by simpa [he] using hexec
  obtain ⟨hlisted,hframe⟩ := ho.listed hxs
  have hkeep := hG.keep (i := i) (h := L i) ⟨_,hlisted⟩ hframe.fs
  cases ho with
  | invalid | busy =>
    exact ⟨hkeep (fun _ => Iff.rfl) (Or.inl rfl) (by simp [hpre]),Or.inl rfl⟩
  | @refused m p fs hm hp hfs hres =>
    obtain ⟨call,hcalls,hcall,hno⟩ := callFs_failed hres
    rw [if_neg (ne_of_lt hres)] at hlisted
    refine ⟨hkeep ?_ (Or.inr ⟨call,hcalls,hno⟩) (by simp [hpre]),Or.inr ⟨call,hcalls,?_⟩⟩
    · intro n
      rw [hlisted.mounted_iff,hxs.mounted_iff]
    · rw [hcall]
      exact fun h => hm ((hxs.mounted_iff m).mp h)
  | @mounted m p fs hm hp hfs hres =>
    rw [if_pos rfl] at hlisted
    have hnot : ¬s.Mounted m := fun h => hm ((hxs.mounted_iff m).mp h)
    have hF : F m = some fs := (hG.fs m).symm.trans hfs
    have hmem : ∀ n,State.Mounted _ n ↔ s.Mounted n ∨ n = m := fun n => by
      rw [hlisted.mounted_iff,hxs.mounted_iff]
      simp
    have henter := hG.enter (i := i) (h := L i) ⟨_,hlisted⟩ hframe.fs hmem
    rcases callFs_cases fs m .mount (s.withLen m p) with ⟨hnone,hcall⟩ | ⟨hsome,hcall⟩
    · have hsame : (callFs fs m .mount (s.withLen m p)).2.calls = s.calls := by rw [hcall]; rfl
      exact ⟨henter (Or.inl ⟨by simp [HasMount,hF,hnone],hsame⟩) (hund m rfl rfl) hpre,
        Or.inl hsame⟩
    · exact ⟨henter (Or.inr ⟨by simpa [HasMount,hF] using hsome,_,hres,hcall⟩)
        (hund m rfl rfl) hpre,Or.inr ⟨_,hcall,hnot⟩⟩

theorem LifeGood.umount (hG : LifeGood F K L s) {force : Bool} {r : Int}
    (hpre : (L i).checked = some (m,true)) (hexec : vfsUmountBody m force s = some (r,s'))
    (hund : r = 0 → ∀ j,j ≠ i → (L j).checked.map (·.1) ≠ some m) :
    LifeGood F K (Function.update L i { L i with checked := none }) s' ∧ Recorded s s' := by
  obtain ⟨xs,hxs⟩ := hG.listed
  have hmounted : s.Mounted m := (hG.checked i m true hpre).mpr rfl
  have hm := (hxs.mounted_iff m).mp hmounted
  obtain ⟨p,hp,_⟩ := hxs.accepted m hm
  obtain ⟨fs,hfs⟩ := Option.isSome_iff_exists.mp (Mount.accepted_eq_some.mp hp).1
  obtain ⟨r',s'',he,ho⟩ := vfsUmountBody_outcome hxs hfs force
  obtain ⟨rfl,rfl⟩ : r' = r ∧ s'' = s' := by simpa [he] using hexec
  obtain ⟨hlisted,hframe⟩ := ho.listed hxs
  have hkeep := hG.keep (i := i) (h := { L i with checked := none }) ⟨_,hlisted⟩ hframe.fs
  cases ho with
  | busy => exact ⟨hkeep (fun _ => Iff.rfl) (Or.inl rfl) (by simp),Or.inl rfl⟩
  | refused _ hres =>
    obtain ⟨call,hcalls,hcall,hno⟩ := callFs_failed hres
    rw [if_neg (ne_of_lt hres)] at hlisted
    refine ⟨hkeep ?_ (Or.inr ⟨call,hcalls,hno⟩) (by simp),Or.inr ⟨call,hcalls,?_⟩⟩
    · intro n
      rw [hlisted.mounted_iff,hxs.mounted_iff]
    · rw [hcall]
      exact hmounted
  | unlisted _ _ hno => exact absurd hm hno
  | removed _ hres _ hl =>
    rw [if_pos rfl] at hlisted
    have hmem : ∀ n,State.Mounted _ n ↔ s.Mounted n ∧ n ≠ m := fun n => by
      rw [hlisted.mounted_iff,hxs.mounted_iff,hxs.repr.nodup.mem_erase_iff]
      tauto
    have hleave := hG.leave (i := i) (h := { L i with checked := none }) ⟨_,hlisted⟩ hframe.fs
      hmem hmounted
    rcases callFs_cases fs m .umount s with ⟨_,hcall⟩ | ⟨_,hcall⟩
    · have hsame : (callFs fs m .umount s).2.calls = s.calls := by rw [hcall]
      exact ⟨hleave (Or.inl hsame) (hund rfl) rfl,Or.inl hsame⟩
    · exact ⟨hleave (Or.inr ⟨_,hres,hcall⟩) (hund rfl) rfl,Or.inr ⟨_,hcall,hmounted⟩⟩

/-- A check moves nothing, and what it tells its caller is true. -/
theorem LifeGood.check (hG : LifeGood F K L s) {xs : List W.Mnt} (hxs : s.Listed xs)
    {mountp : Option W.Mnt} {r : Int} (ho : CheckOutcome s xs mountp r s')
    (hh : ∀ n b,h.checked = some (n,b) → (s.Mounted n ↔ b = true)) :
    LifeGood F K (Function.update L i h) s' ∧ Recorded s s' := by
  obtain ⟨hlisted,hframe⟩ := ho.listed hxs
  have hmem : ∀ n,s'.Mounted n ↔ s.Mounted n := fun n => by
    rw [hlisted.mounted_iff,hxs.mounted_iff]
  have hcalls : s'.calls = s.calls := by cases ho <;> rfl
  exact ⟨hG.keep ⟨xs,hlisted⟩ hframe.fs hmem (Or.inl hcalls) hh,Or.inl hcalls⟩

/-- One allowed action: what it moves nobody else has checked. -/
theorem LifeGood.act (hG : LifeGood F K L s) {x : Action W} {r : x.Resp}
    (hpre : checks.pre (L i) x) (hexec : x.exec i s = some (r,s'))
    (hund : ∀ m,moved (.act i x r) = some m →
      ∀ j,j ≠ i → (L j).checked.map (·.1) ≠ some m) :
    checks.post (L i) x r ∧ LifeGood F K (Function.update L i ((L i).next x r)) s' ∧
      Recorded s s' := by
  have hold : ∀ n b,(L i).checked = some (n,b) → (s.Mounted n ↔ b = true) := hG.checked i
  obtain ⟨xs,hxs⟩ := hG.listed
  cases x with
  | mount mountp =>
    refine ⟨trivial,hG.mount hpre hexec ?_⟩
    rintro m rfl hr
    exact hund m (by simp [moved,hr])
  | umount m force =>
    refine ⟨trivial,hG.umount hpre hexec ?_⟩
    intro hr
    exact hund m (by simp [moved,hr])
  | formatCheck mountp =>
    obtain ⟨r',s'',he,ho⟩ := vfsFormatCheck_outcome hxs mountp
    change vfsFormatCheck mountp s = some (r,s') at hexec
    obtain ⟨rfl,rfl⟩ : r' = r ∧ s'' = s' := by simpa [he] using hexec
    refine ⟨ho.res.elim le_of_eq le_of_lt,hG.check hxs ho ?_⟩
    cases ho with
    | @invalid mountp _ =>
      cases mountp <;> simpa [Hold.next,EINVAL] using hold
    | busy => simpa [Hold.next,EBUSY] using hold
    | @passed m p hm _ =>
      intro n b hb
      obtain ⟨rfl,rfl⟩ : m = n ∧ false = b := by simpa [Hold.next] using hb
      simp [hxs.mounted_iff,hm]
  | umountCheck mountp =>
    obtain ⟨r',s'',he,ho⟩ := vfsUmountCheck_outcome hxs mountp
    change vfsUmountCheck mountp s = some (r,s') at hexec
    obtain ⟨rfl,rfl⟩ : r' = r ∧ s'' = s' := by simpa [he] using hexec
    refine ⟨trivial,hG.check hxs ho ?_⟩
    cases ho with
    | @invalid mountp _ =>
      cases mountp <;> simpa [Hold.next,EINVAL,EBUSY] using hold
    | @busy m p hm _ =>
      intro n b hb
      obtain ⟨rfl,rfl⟩ : m = n ∧ true = b := by simpa [Hold.next] using hb
      simp [hxs.mounted_iff,hm]
    | passed => simpa [Hold.next,EBUSY] using hold
  | fs m =>
    obtain ⟨rfl,rfl⟩ : (s.mounts m).fs = r ∧ s = s' := by simpa [Action.exec] using hexec
    exact ⟨trivial,hG.keep ⟨xs,hxs⟩ (fun _ => rfl) (fun _ => Iff.rfl) (Or.inl rfl) hold,
      Or.inl rfl⟩
  | fsCall m req =>
    cases req with
    | format =>
      obtain ⟨callback,_,hcall⟩ := Option.map_eq_some_iff.mp hexec
      obtain ⟨rfl,rfl⟩ := Prod.mk.inj hcall
      refine ⟨trivial,hG.keep ⟨xs,hxs.repr,hxs.accepted⟩ (fun _ => rfl) (fun _ => Iff.rfl)
        (Or.inr ⟨_,rfl,by simp [Call.succeeded]⟩) (by simp [Hold.next]),Or.inr ⟨_,rfl,?_⟩⟩
      intro hm
      exact absurd ((hold m false hpre).mp hm) (by decide)
    | _ => exact absurd hpre id
  | fault => simp [Action.exec] at hexec
  | _ => exact absurd hpre id

end Effects

theorem checks_vfsFormat (mountp : Option W.Mnt) (h : Hold W) :
    (vfsFormat mountp).Obeys checks (fun _ _ => True) h := by
  simp only [vfsFormat,act,Prog.act_bind,Prog.obeys_step]
  refine ⟨trivial,?_⟩
  intro r hr
  by_cases hneg : r < 0
  · simp only [hneg,if_true,Prog.pure_eq,Prog.obeys_ret]
  · obtain rfl : r = 0 := le_antisymm hr (not_lt.mp hneg)
    cases mountp with
    | none => exact ⟨trivial,fun r => r.elim⟩
    | some m =>
      simp only [hneg,if_false,mountFs,act,Prog.act_bind,Prog.step_bind,Prog.obeys_step]
      refine ⟨trivial,?_⟩
      intro fs _
      cases fs with
      | none => exact ⟨trivial,fun r => r.elim⟩
      | some fs =>
        simp only [Prog.pure_eq,Prog.ret_bind]
        cases fs.fsCallback .format with
        | none => trivial
        | some callback => exact ⟨rfl,fun _ _ => trivial⟩

theorem checks_vfsUmount (mountp : Option W.Mnt) (force : Bool) (h : Hold W) :
    (vfsUmount mountp force).Obeys checks (fun _ _ => True) h := by
  simp only [vfsUmount,act,Prog.act_bind,Prog.obeys_step]
  refine ⟨trivial,?_⟩
  intro r _
  by_cases hbusy : r = -EBUSY
  · rw [if_pos hbusy]
    cases mountp with
    | none => exact ⟨trivial,fun r => r.elim⟩
    | some m => exact ⟨by simp [checks,Hold.next,hbusy],fun _ _ => trivial⟩
  · simp only [hbusy,if_false,Prog.pure_eq,Prog.obeys_ret]

theorem begin_mountsOnly {i : W.Task} {op : Op W} (K : Pool W) (h : MountsOnly (.start i op)) :
    K.begin i op = (K,Hold.idle) ∧ op.prog.Obeys checks (fun _ _ => True) Hold.idle := by
  cases op with
  | format mountp => exact ⟨rfl,checks_vfsFormat mountp Hold.idle⟩
  | mount mountp => exact ⟨rfl,rfl,fun _ _ => trivial⟩
  | umount mountp force => exact ⟨rfl,checks_vfsUmount mountp force Hold.idle⟩
  | _ => exact absurd h (by simp [MountsOnly])

theorem lifeInv_reachable {s : State W} (hlist : s.mountsList.head = none) (hcalls : s.calls = [])
    {c : VConfig W} (hc : (vfs W).Reachable Undisturbed (initial s) c) :
    LifeInv s.fileSystems c := by
  have hinit : LifeInv s.fileSystems (initial s) := by
    refine ⟨⟨⟨[],Clist.repr_nil hlist,by simp⟩,fun _ => rfl,?_,?_,?_,?_⟩,by simp [initial]⟩
    · simp [locals_initial,Hold.idle]
    · simp [initial,hcalls]
    · simp [initial,hcalls,remounted]
    · simp [initial,hcalls,lifeCycle]
  refine System.invariant rfl ?_ ?_ ?_ hinit hc
  · intro c i op hinv hidle hok
    obtain ⟨hbegin,hobeys⟩ := begin_mountsOnly c.pool hok.1
    change LifeGood _ (c.pool.begin i op).1
      (Function.update ((vfs W).locals c) i (c.pool.begin i op).2) c.shared ∧
      op.prog.Obeys checks _ (c.pool.begin i op).2
    rw [hbegin]
    refine ⟨?_,hobeys⟩
    exact hinv.good.keep hinv.good.listed (fun _ => rfl) (fun _ => Iff.rfl) (Or.inl rfl)
      (by simp [Hold.idle])
  · intro c i op h x next r s' hinv hbusy hok hpre hexec
    have hh := System.locals_busy (S := vfs W) hbusy
    subst hh
    obtain ⟨hpost,hG,_⟩ := hinv.good.act hpre hexec hok.2
    exact ⟨hpost,hG⟩
  · intro c i op h r hinv hbusy hok _
    have hG := hinv.good.keep (i := i) (h := Hold.idle) hinv.good.listed (fun _ => rfl)
      (fun _ => Iff.rfl) (Or.inl rfl) (by simp [Hold.idle])
    exact ⟨hG.listed,hG.fs,hG.checked,hG.mounts,hG.remounted,hG.cycle⟩

/-- While nobody moves a mount between another call's check and its callback, drivers are
called in order: unmounted only while mounted, mounted and formatted only while not, and
never unmounted twice in a row. -/
theorem driver_life_cycle {s : State W} (hlist : s.mountsList.head = none)
    (hcalls : s.calls = []) {c : VConfig W}
    (hc : (vfs W).Reachable Undisturbed (initial s) c) :
    (∀ m,HasMount s.fileSystems m → lifeCycle m c.shared.calls) ∧
    (∀ m call,call ∈ c.shared.calls → call.succeeded m .mount → HasMount s.fileSystems m) ∧
    ∀ l c',Undisturbed c l → (vfs W).Step c l c' → Recorded c.shared c'.shared := by
  have hinv := lifeInv_reachable hlist hcalls hc
  refine ⟨hinv.good.cycle,hinv.good.mounts,?_⟩
  intro l c' hok hstep
  cases hstep with
  | start => exact Or.inl rfl
  | finish => exact Or.inl rfl
  | act hbusy hexec =>
    have hpre := (hinv.obeys _ _ _ _ hbusy).1
    rw [← System.locals_busy (S := vfs W) hbusy] at hpre
    exact (hinv.good.act hpre hexec hok.2).2.2

def VLabel.mountsOnly : VLabel W → Bool
  | .start _ (.mount _) | .start _ (.umount _ _) | .start _ (.format _) => true
  | .start _ _ => false
  | _ => true

theorem mountsOnly_iff {l : VLabel W} : MountsOnly l ↔ VLabel.mountsOnly l := by
  unfold MountsOnly VLabel.mountsOnly
  split <;> simp

instance (l : VLabel W) : Decidable (MountsOnly l) := decidable_of_iff _ mountsOnly_iff.symm

instance (c : VConfig W) (l : VLabel W) : Decidable (Undisturbed c l) := by
  unfold Undisturbed
  infer_instance

def otherMnt : demo.Mnt := (⟨1,Nat.one_lt_two⟩ : Fin 2)

/-- A mount is undone and done again while the other task formats, mounts and unmounts the other
object. -/
def mountsInTurn : List (Move demo.Task (Op demo)) :=
  demoMount ++ callFor secondTask (.format (some otherMnt)) 1 ++
    callFor firstTask (.umount (some demoMnt) false) 1 ++ List.replicate 3 (.go secondTask) ++
    callFor secondTask (.mount (some otherMnt)) 1 ++ List.replicate 2 (.go firstTask) ++
    [.go secondTask] ++ callFor secondTask (.umount (some otherMnt) false) 1 ++ demoMount

/-- At the end the second task has checked the mount that it unmounts. -/
theorem driver_life_cycle_turns : ∃ c : VConfig demo,
    c.shared.calls.map (·.succeeded demoMnt .mount) = [true,false,false,false,true] ∧
    c.shared.calls.map (·.succeeded demoMnt .umount) = [false,true,false,false,false] ∧
    c.shared.calls.map (·.succeeded otherMnt .format) = [false,false,false,true,false] ∧
    ((vfs demo).locals c secondTask).checked = some (otherMnt,true) ∧
    ∀ m,lifeCycle m c.shared.calls := by
  have hrun : ((vfs demo).drive Undisturbed mountsInTurn (initial (demoState none))).any
      (fun c => decide (
        c.shared.calls.map (·.succeeded demoMnt .mount) = [true,false,false,false,true] ∧
        c.shared.calls.map (·.succeeded demoMnt .umount) = [false,true,false,false,false] ∧
        c.shared.calls.map (·.succeeded otherMnt .format) = [false,false,false,true,false] ∧
        ((vfs demo).locals c secondTask).checked = some (otherMnt,true))) = true := by decide
  obtain ⟨c,hc,hv⟩ := System.drive_any hrun
  obtain ⟨hmount,humount,hformat,hchecked⟩ := of_decide_eq_true hv
  exact ⟨c,hmount,humount,hformat,hchecked,fun m => (driver_life_cycle rfl rfl hc).1 m rfl⟩

/-- Two tasks unmount the same mount: both checks pass, and the driver unmounts twice. -/
theorem umount_race : ∃ c l c',
    (vfs demo).Reachable (fun _ l => MountsOnly l) (initial (demoState none)) c ∧
    (vfs demo).Step c l c' ∧ MountsOnly l ∧ ¬c.shared.Mounted demoMnt ∧
    c'.shared.calls.map (·.succeeded demoMnt .umount) = [true,true,false] ∧
    c'.shared.calls.map (·.succeeded demoMnt .mount) = [false,false,true] := by
  have hrun : ((vfs demo).drive (fun _ l => MountsOnly l)
      (demoMount ++ callFor 0 (.umount (some demoMnt) false) 1 ++
        callFor 1 (.umount (some demoMnt) false) 1 ++ [.go (demoTask 0)])
      (initial (demoState none))).any (fun c =>
        ((vfs demo).move c (.go (demoTask 1))).any fun v => decide (
          MountsOnly v.1 ∧ ¬c.shared.Mounted demoMnt ∧
          v.2.shared.calls.map (·.succeeded demoMnt .umount) = [true,true,false] ∧
          v.2.shared.calls.map (·.succeeded demoMnt .mount) = [false,false,true])) = true := by
    decide
  obtain ⟨c,l,c',hc,hstep,hP⟩ := System.drive_move_any hrun
  exact ⟨c,l,c',hc,hstep,of_decide_eq_true hP⟩

end UcVfs
