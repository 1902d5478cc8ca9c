import UcVfs.Vfs.DirHandles
import UcVfs.Vfs.StatFromFstat

/-!
# Drivers that lack operations

Sequences of calls on mounts whose drivers leave out tables or callbacks: when a call runs
without a null dereference, and what it leaves of the descriptor table and the pins.
-/

namespace UcVfs

open Framework

variable {W : World}

/-- No descriptor and no DIR object was taken or given back, and no pin. -/
structure Steady (s s' : State W) : Prop where
  tcb : ∀ f,(s'.files f).tcb = (s.files f).tcb
  entry : ∀ f,(s.files f).tcb.isSome →
    (s'.files f).mp = (s.files f).mp ∧ (s'.files f).fOp = (s.files f).fOp
  dirs : ∀ d,(s'.dirs d).mp = (s.dirs d).mp
  openFiles : ∀ m,(s'.mounts m).openFiles = (s.mounts m).openFiles

/-- What a call that ran to its end and returned `r` did to the descriptor table, the DIR objects
and the pins. -/
def Moves (tcb : W.Task) (s s' : State W) (r : Int) : Op W → Prop
  | .open_ name _ _ =>
    if r < 0 then
      Steady s s'
    else
      ∃ f : Fd,∃ n m relPath,r = (f : Nat) ∧ name = some n ∧ Selects tcb s n m relPath ∧
        (s.files f).tcb = none ∧ (s'.files f).tcb.isSome ∧ (s'.files f).mp = some m ∧
        (s'.files f).fOp.isSome ∧ (∀ g,g ≠ f → s'.files g = s.files g) ∧ s'.dirs = s.dirs ∧
        s'.mounts = (s.pin m).mounts
  | .close fd =>
    match s.entry fd with
    | none => Steady s s'
    | some f => (s'.files f).tcb = none ∧ (∀ g,g ≠ f → s'.files g = s.files g) ∧
        s'.dirs = s.dirs ∧ match (s.files f).mp with
        | none => s'.mounts = s.mounts
        | some m => s'.mounts = (s.unpin m).mounts
  | .opendir (some d) name => OpendirOutcome tcb s d name r s'
  | .closedir (some d) => ClosedirOutcome s d r s'
  | _ => Steady s s'

/-- The mount that a name resolves to has no such callback. -/
def LacksFs (tcb : W.Task) (s : State W) (name : CStr) (req : CStr → FsReq) : Prop :=
  ∃ m relPath,Selects tcb s name m relPath ∧
    ((s.mounts m).fs.bind (·.fsCallback (req relPath))).isNone

/-- A valid descriptor's driver has no such callback. -/
def LacksFile (s : State W) (fd : Int) (req : FileReq) : Prop :=
  ∃ f ∈ s.entry fd,((s.files f).fOp.bind (·.callback req)).isNone

/-- The call needs a callback that the driver does not have. -/
def Lacks (tcb : W.Task) (s : State W) : Op W → Prop
  | .fstat fd (some _) => LacksFile s fd .fstat
  | .read fd true count => LacksFile s fd (.read count)
  | .write fd (some src) => LacksFile s fd (.write src)
  | .fsync fd => LacksFile s fd .fsync
  | .opendir (some _) (some name) => ∃ m relPath,Selects tcb s name m relPath ∧
      ((s.mounts m).fs.bind (·.dOp)).isNone
  | .readdir (some d) (some _) => ((s.dirs d).dOp.bind (·.readdir)).isNone
  | .format (some m) => ((s.mounts m).fs.bind (·.fsCallback .format)).isNone
  | .rename (some fromPath) (some toPath) => LacksFs tcb s fromPath (.rename · toPath)
  | .unlink (some name) => LacksFs tcb s name .unlink
  | .mkdir (some name) mode => LacksFs tcb s name (.mkdir · mode)
  | .rmdir (some name) => LacksFs tcb s name .rmdir
  | .stat (some path) (some _) => LacksFs tcb s path .stat
  | _ => False

/-- What `vfs_sysop_stat_from_fstat` needs of a driver for this path: an `open`, and `fstat`
and `close` when that opens it; directory operations when it does not, and `closedir` when
`opendir` then succeeds. -/
def Sysop.Served (sp : Sysop W) (mountp : W.Mnt) (fs : FileSystem W) (path : CStr)
    (drv : W.Drv) : Prop :=
  ∃ fOp ∈ fs.fOp,∃ open_ ∈ fOp.open_,
    let file := open_ path 0 0 ⟨some mountp,0,0,W.nullPtr sp.filePriv⟩ drv
    if file.res < 0 then
      ∃ ops ∈ fs.dOp,∀ opendir ∈ ops.opendir,
        0 ≤ (opendir path ⟨some mountp,sp.dirPriv file.priv⟩ file.drv).res → ops.closedir.isSome
    else
      fOp.fstat.isSome ∧ fOp.close.isSome

/-- What a call needs of the driver beyond what its operation checks. -/
def Served (sp : Sysop W) (tcb : W.Task) (s : State W) : Op W → Prop
  | .open_ (some name) _ _ => ∀ m relPath,Selects tcb s name m relPath →
      ((s.mounts m).fs.bind (·.fOp)).isSome ∨ ∀ f,(s.files f).tcb.isSome
  | .opendir (some _) (some name) => ∀ m relPath,Selects tcb s name m relPath →
      ((s.mounts m).fs.bind (·.dOp)).isSome
  | .stat (some path) (some _) => ∀ m relPath,Selects tcb s path m relPath → sp.uses m →
      ∀ fs ∈ (s.mounts m).fs,(fs.fsCallback (.stat relPath)).isSome →
        sp.Served m fs relPath s.drv
  | _ => True

theorem Sysop.isDir_isSome {mountp : W.Mnt} {fs : FileSystem W} {priv : W.Priv}
    {path : CStr} {drv : W.Drv} : (isDir mountp fs priv path drv).isSome ↔
      ∃ ops ∈ fs.dOp,∀ opendir ∈ ops.opendir,
        0 ≤ (opendir path ⟨some mountp,priv⟩ drv).res → ops.closedir.isSome := by
  unfold isDir
  cases hd : fs.dOp with
  | none => simp
  | some ops =>
    cases ho : ops.opendir with
    | none => simp [ho]
    | some opendir =>
      by_cases hres : (opendir path ⟨some mountp,priv⟩ drv).res < 0
      · simp [ho,hres]
      · cases hc : ops.closedir <;> simp [ho,hres,hc]

theorem Sysop.statFromFstat_isSome {sp : Sysop W} {mountp : W.Mnt} {fs : FileSystem W}
    {path : CStr} {drv : W.Drv} :
    (sp.statFromFstat mountp fs path drv).isSome ↔ sp.Served mountp fs path drv := by
  unfold statFromFstat Served
  cases hfOp : fs.fOp with
  | none => simp
  | some fOp =>
    cases hopen : fOp.open_ with
    | none => simp [hopen]
    | some open_ =>
      simp only [Option.mem_def,Option.some.injEq,exists_eq_left',hopen,Option.bind_eq_bind,
        Option.bind_some]
      split
      · refine Iff.trans ?_ isDir_isSome
        cases isDir mountp fs _ path _ with
        | none => simp
        | some v =>
          simp only [Option.bind_some,Option.isSome_some,iff_true]
          split <;> rfl
      · cases fOp.fstat <;> cases fOp.close <;> simp

section Calls

variable (sp : Sysop W) (tcb : W.Task) {s : State W} {xs : List W.Mnt}

/-- Every action but a `stat` of a driver. -/
def NoStat (x : Action W) : Prop := ∀ m path,x ≠ .fsCall m (.stat path)

theorem execSysop_eq {x : Action W} (hx : NoStat x) (s : State W) :
    x.execSysop sp tcb s = x.exec tcb s := by
  cases x with
  | fsCall m req =>
    cases req with
    | stat path => exact absurd rfl (hx m path)
    | _ => rfl
  | _ => rfl

theorem run_execSysop {ρ : Type} {p : VProg W ρ} (hp : p.Only NoStat) (s : State W) :
    p.run (Action.execSysop sp tcb) s = p.run (Action.exec tcb) s :=
  hp.run_eq (fun _ s hx => execSysop_eq sp tcb hx s) s

omit sp tcb in
theorem findMount_noStat (name : CStr) : (findMount name : VProg W _).Only NoStat := by
  refine ⟨by simp [NoStat],fun r => ?_⟩
  cases r with
  | error res => trivial
  | ok r =>
    refine ⟨by simp [NoStat],fun fs => ?_⟩
    cases fs with
    | none => exact ⟨by simp [NoStat],fun r => nomatch r⟩
    | some fs =>
      simp only [Prog.pure_eq,Prog.bind]
      split <;> trivial

/-- Neither the mounts nor the DIR objects nor what the table says of its descriptors. -/
structure Kept (s s' : State W) : Prop where
  mounts : s'.mounts = s.mounts
  list : s'.mountsList = s.mountsList
  dirs : s'.dirs = s.dirs
  files : ∀ f,(s'.files f).tcb = (s.files f).tcb ∧ (s'.files f).mp = (s.files f).mp ∧
    (s'.files f).fOp = (s.files f).fOp

omit sp tcb in
theorem Kept.refl (s : State W) : Kept s s := ⟨rfl,rfl,rfl,fun _ => ⟨rfl,rfl,rfl⟩⟩

omit sp tcb in
theorem Kept.steady {s s' : State W} (h : Kept s s') : Steady s s' :=
  ⟨fun f => (h.files f).1,fun f _ => (h.files f).2,fun d => by rw [h.dirs],fun m => by rw [h.mounts]⟩

/-- What a call did to the table and the pins, and that it says so when it needs a callback that
is missing. -/
def Lawful (s : State W) (op : Op W) (r : Int) (s' : State W) : Prop :=
  Moves tcb s s' r op ∧ (Lacks tcb s op → r < 0)

/-- A program that runs to the end with this. -/
abbrev Sure {ρ : Type} (Q : ρ → State W → Prop) (p : VProg W ρ) (s : State W) : Prop :=
  p.Total (Action.execSysop sp tcb) Q s

variable {sp tcb} {ρ : Type}

theorem sure_step {x : Action W} {r : x.Resp} {s' : State W} {next : x.Resp → VProg W ρ}
    {Q : ρ → State W → Prop} (he : x.execSysop sp tcb s = some (r,s')) :
    Sure sp tcb Q (Prog.step x next) s ↔ Sure sp tcb Q (next r) s' := by
  simp only [Sure,Prog.Total,Prog.run_step he]

theorem sure_file {f : Fd} {next : File W → VProg W ρ} {Q : ρ → State W → Prop} :
    Sure sp tcb Q (Prog.step (.file f) next) s ↔ Sure sp tcb Q (next (s.files f)) s :=
  sure_step rfl

/-- The check of a descriptor changes nothing. -/
theorem sure_fdIsValid {fd : Int} {Q : Except Int Fd → State W → Prop} :
    Sure sp tcb Q (fdIsValid fd) s ↔ Q ((s.entry fd).elim (.error (-EBADF)) .ok) s := by
  unfold fdIsValid State.entry
  cases fdIndex fd with
  | none => simp [Sure]
  | some f =>
    simp only [act,Prog.act_bind,sure_file]
    cases htcb : (s.files f).tcb with
    | none => simp [Option.filter,htcb,Sure]
    | some t =>
      simp only [Option.isNone_some,Bool.false_eq_true,if_false,sure_file]
      cases hfOp : (s.files f).fOp <;> simp [Option.filter,htcb,hfOp,Sure]

theorem sure_fileOps {f : Fd} {ops : FileOps W} (h : (s.files f).fOp = some ops)
    {Q : FileOps W → State W → Prop} : Sure sp tcb Q (fileOps f) s ↔ Q ops s := by
  simp only [fileOps,act,Prog.act_bind,sure_file,h]
  simp [Sure]

theorem sure_fileOps_null {f : Fd} (h : (s.files f).fOp = none)
    {Q : FileOps W → State W → Prop} : ¬Sure sp tcb Q (fileOps f) s := by
  simp only [fileOps,act,Prog.act_bind,sure_file,h]
  exact fun ⟨_,_,hrun,_⟩ => nomatch hrun

theorem sure_fileCall {f : Fd} {ops : FileOps W} {req : FileReq}
    (h : (s.files f).fOp = some ops) (hcall : (ops.callback req).isSome)
    {next : FileRet → VProg W ρ} {Q : ρ → State W → Prop}
    (hnext : ∀ ans s',Kept s s' → (∀ g,g ≠ f → s'.files g = s.files g) →
      Sure sp tcb Q (next ans) s') :
    Sure sp tcb Q (Prog.step (.fileCall f req) next) s := by
  obtain ⟨callback,hc⟩ := Option.isSome_iff_exists.mp hcall
  have hexec : (Action.fileCall f req).execSysop sp tcb s =
      some (fileCallback f req callback s) := by
    change (Action.fileCall f req).exec tcb s = _
    simp [Action.exec,h,hc]
  refine Prog.total_step.mpr ⟨_,_,hexec,hnext _ _ ⟨rfl,rfl,rfl,?_⟩ ?_⟩
  · intro g
    by_cases hg : g = f
    · subst g
      simp [State.returned,State.modifyFile]
    · simp [State.returned,State.modifyFile,hg]
  · intro g hg
    simp [State.returned,State.modifyFile,hg]

omit sp in
theorem lacksFile_iff {fd : Int} {f : Fd} {ops : FileOps W} {req : FileReq}
    (he : s.entry fd = some f) (hops : (s.files f).fOp = some ops) :
    LacksFile s fd req ↔ (ops.callback req).isNone := by
  simp [LacksFile,he,hops]

theorem vfsFstat_lawful (fd : Int) (buf : Option Stat) :
    Sure sp tcb (fun r s' => Kept s s' ∧ (Lacks tcb s (.fstat fd buf) → r < 0))
      (Op.fstat fd buf).prog s := by
  cases buf with
  | none => exact ⟨_,_,rfl,.refl s,False.elim⟩
  | some buf =>
    simp only [Op.prog,vfsFstat,Prog.total_map,Prog.total_bind,sure_fdIsValid]
    cases he : s.entry fd with
    | none => exact ⟨_,_,rfl,.refl s,fun _ => show -EBADF < 0 by decide⟩
    | some f =>
      obtain ⟨_,ops,hops⟩ := State.entry_eq_some he
      simp only [Option.elim_some,Prog.total_bind,sure_fileOps hops]
      cases hc : ops.fstat with
      | none => exact ⟨_,_,rfl,.refl s,fun _ => show -EINVAL < 0 by decide⟩
      | some f' =>
        refine sure_fileCall hops (by simp [FileOps.callback,hc]) fun ans s' hk _ => ?_
        refine ⟨_,_,rfl,hk,fun hl => ?_⟩
        simp [Lacks,lacksFile_iff he hops,FileOps.callback,hc] at hl

theorem vfsLseek_lawful (fd : Int) (off whence : Int) :
    Sure sp tcb (fun _ s' => Kept s s') (Op.lseek fd off whence).prog s := by
  simp only [Op.prog,vfsLseek,Prog.total_bind,sure_fdIsValid]
  cases he : s.entry fd with
  | none => exact ⟨_,_,rfl,.refl s⟩
  | some f =>
    obtain ⟨_,ops,hops⟩ := State.entry_eq_some he
    simp only [Option.elim_some,Prog.total_bind,sure_fileOps hops]
    cases hc : ops.lseek with
    | none =>
      simp only [Option.isNone_none,if_true,act,Prog.act_bind,sure_file]
      generalize (if whence = SEEK_CUR then wrapOff (off + (s.files f).pos) else off) = off
      split
      · split
        · exact ⟨_,_,rfl,.refl s⟩
        · refine ⟨_,_,rfl,rfl,rfl,rfl,fun g => ?_⟩
          by_cases hg : g = f
          · subst g
            simp [State.modifyFile]
          · simp [State.modifyFile,hg]
      · exact ⟨_,_,rfl,.refl s⟩
    | some f' =>
      exact sure_fileCall hops (by simp [FileOps.callback,hc]) fun ans s' hk _ => ⟨_,_,rfl,hk⟩

theorem vfsRead_lawful (fd : Int) (dest : Bool) (count : Nat) :
    Sure sp tcb (fun r s' => Kept s s' ∧ (Lacks tcb s (.read fd dest count) → r < 0))
      (Op.read fd dest count).prog s := by
  cases dest with
  | false => exact ⟨_,_,rfl,.refl s,False.elim⟩
  | true =>
    simp only [Op.prog,vfsRead,prepRead,Prog.total_map,Prog.total_bind,sure_fdIsValid,
      not_true_eq_false,if_false]
    cases he : s.entry fd with
    | none => exact ⟨_,_,rfl,_,_,rfl,.refl s,fun _ => show -EBADF < 0 by decide⟩
    | some f =>
      obtain ⟨_,ops,hops⟩ := State.entry_eq_some he
      simp only [Option.elim_some,act,Prog.act_bind,sure_file]
      split
      · exact ⟨_,_,rfl,_,_,rfl,.refl s,fun _ => show -EBADF < 0 by decide⟩
      · simp only [Prog.total_bind,sure_fileOps hops]
        cases hc : ops.read with
        | none => exact ⟨_,_,rfl,_,_,rfl,.refl s,fun _ => show -EINVAL < 0 by decide⟩
        | some f' =>
          simp only [Option.isNone_some,Bool.false_eq_true,if_false,Prog.pure_eq,Prog.total_ret]
          refine sure_fileCall hops (by simp [FileOps.callback,hc]) fun ans s' hk _ => ?_
          refine ⟨_,_,rfl,hk,fun hl => ?_⟩
          simp [Lacks,lacksFile_iff he hops,FileOps.callback,hc] at hl

theorem vfsWrite_lawful (fd : Int) (src : Option (List UInt8)) :
    Sure sp tcb (fun r s' => Kept s s' ∧ (Lacks tcb s (.write fd src) → r < 0))
      (Op.write fd src).prog s := by
  cases src with
  | none => exact ⟨_,_,rfl,.refl s,False.elim⟩
  | some src =>
    simp only [Op.prog,vfsWrite,Prog.total_bind,sure_fdIsValid]
    cases he : s.entry fd with
    | none => exact ⟨_,_,rfl,.refl s,fun _ => show -EBADF < 0 by decide⟩
    | some f =>
      obtain ⟨_,ops,hops⟩ := State.entry_eq_some he
      simp only [Option.elim_some,act,Prog.act_bind,sure_file]
      split
      · exact ⟨_,_,rfl,.refl s,fun _ => show -EBADF < 0 by decide⟩
      · simp only [Prog.total_bind,sure_fileOps hops]
        cases hc : ops.write with
        | none => exact ⟨_,_,rfl,.refl s,fun _ => show -EINVAL < 0 by decide⟩
        | some f' =>
          refine sure_fileCall hops (by simp [FileOps.callback,hc]) fun ans s' hk _ => ?_
          refine ⟨_,_,rfl,hk,fun hl => ?_⟩
          simp [Lacks,lacksFile_iff he hops,FileOps.callback,hc] at hl

theorem vfsFsync_lawful (fd : Int) :
    Sure sp tcb (fun r s' => Kept s s' ∧ (Lacks tcb s (.fsync fd) → r < 0))
      (Op.fsync fd).prog s := by
  simp only [Op.prog,vfsFsync,Prog.total_bind,sure_fdIsValid]
  cases he : s.entry fd with
  | none => exact ⟨_,_,rfl,.refl s,fun _ => show -EBADF < 0 by decide⟩
  | some f =>
    obtain ⟨_,ops,hops⟩ := State.entry_eq_some he
    simp only [Option.elim_some,act,Prog.act_bind,sure_file]
    split
    · exact ⟨_,_,rfl,.refl s,fun _ => show -EBADF < 0 by decide⟩
    · simp only [Prog.total_bind,sure_fileOps hops]
      cases hc : ops.fsync with
      | none => exact ⟨_,_,rfl,.refl s,fun _ => show -EINVAL < 0 by decide⟩
      | some f' =>
        refine sure_fileCall hops (by simp [FileOps.callback,hc]) fun ans s' hk _ => ?_
        refine ⟨_,_,rfl,hk,fun hl => ?_⟩
        simp [Lacks,lacksFile_iff he hops,FileOps.callback,hc] at hl

/-- `_free_fd` gives the entry and its pin back. -/
def State.freed (s : State W) (f : Fd) : State W :=
  (match (s.files f).mp with
    | none => s
    | some m => s.unpin m).modifyFile f fun e => { e with tcb := none }

theorem sure_freeFd {f : Fd} {Q : Unit → State W → Prop} :
    Sure sp tcb Q (freeFd f) s ↔ Q () (s.freed f) := by
  simp only [freeFd,act,Prog.act_bind,sure_file,State.freed]
  cases (s.files f).mp with
  | none => exact Prog.total_of_run rfl
  | some m => exact Prog.total_of_run rfl

omit sp tcb in
theorem State.freed_listed (h : s.Listed xs) (f : Fd) : (s.freed f).Listed xs := by
  unfold freed
  split
  · exact h.congr rfl rfl
  · rename_i m _
    exact (h.unpin m).congr rfl rfl

omit sp tcb in
theorem State.freed_mounts (f : Fd) : (s.freed f).mounts = match (s.files f).mp with
    | none => s.mounts
    | some m => (s.unpin m).mounts := by
  unfold freed
  split <;> rfl

omit sp tcb in
theorem State.freed_dirs (f : Fd) : (s.freed f).dirs = s.dirs := by
  unfold freed
  split <;> rfl

omit sp tcb in
theorem State.freed_self (f : Fd) : ((s.freed f).files f).tcb = none := by
  unfold freed
  split <;> simp [modifyFile]

omit sp tcb in
theorem State.freed_other {f g : Fd} (hg : g ≠ f) : (s.freed f).files g = s.files g := by
  unfold freed
  split <;> simp [modifyFile,hg,unpin,modifyMount]

theorem vfsClose_lawful (h : s.Listed xs) (fd : Int) :
    Sure sp tcb (fun r s' => s'.Listed xs ∧ Moves tcb s s' r (.close fd)) (Op.close fd).prog s := by
  simp only [Op.prog,vfsClose,Prog.total_bind,sure_fdIsValid,Moves]
  cases he : s.entry fd with
  | none => exact ⟨_,_,rfl,h,(Kept.refl s).steady⟩
  | some f =>
    obtain ⟨_,ops,hops⟩ := State.entry_eq_some he
    simp only [Option.elim_some,Prog.total_bind,sure_fileOps hops]
    cases hc : ops.close with
    | none =>
      simp only [Option.isSome_none,Bool.false_eq_true,if_false,Prog.total_bind,sure_freeFd]
      refine ⟨_,_,rfl,s.freed_listed h f,s.freed_self f,fun g hg => s.freed_other hg,
        s.freed_dirs f,?_⟩
      rw [s.freed_mounts f]
      cases (s.files f).mp <;> rfl
    | some f' =>
      simp only [Option.isSome_some,if_true,act,Prog.act_bind]
      refine sure_fileCall hops (by simp [FileOps.callback,hc]) fun ans s' hk hother => ?_
      simp only [Prog.total_bind,sure_freeFd]
      have hlisted : s'.Listed xs := h.congr hk.list hk.mounts
      refine ⟨_,_,rfl,s'.freed_listed hlisted f,s'.freed_self f,?_,?_,?_⟩
      · exact fun g hg => (s'.freed_other hg).trans (hother g hg)
      · exact (s'.freed_dirs f).trans hk.dirs
      · rw [s'.freed_mounts f,(hk.files f).2.1]
        cases (s.files f).mp with
        | none => exact hk.mounts
        | some m => simp only [State.unpin,State.modifyMount,hk.mounts]

/-- An operation on a name runs as it does for the mount that the name resolves to. -/
theorem sure_findMount (h : s.Listed xs) {name : CStr}
    {body : Except Int (W.Mnt × CStr) → VProg W ρ} {Q : ρ → State W → Prop}
    {P : W.Mnt → CStr → Prop} (hmiss : Sure sp tcb Q (body (.error (-ENOENT))) s)
    (hbody : ∀ m ∈ xs,∀ relPath,Selects tcb s name m relPath →
      (Sure sp tcb Q (body (.ok (m,relPath))) (s.pin m) ↔ P m relPath)) :
    Sure sp tcb Q (findMount name >>= body) s ↔
      ∀ m relPath,Selects tcb s name m relPath → P m relPath := by
  simp only [Prog.total_bind]
  rcases findMount_outcome h tcb name with hno | ⟨m,hm,relPath,hsel⟩
  · rw [Prog.total_of_run ((run_execSysop sp tcb (findMount_noStat name) s).trans hno)]
    exact iff_of_true hmiss fun m relPath hsel => absurd hsel (not_selects hno)
  · rw [Prog.total_of_run ((run_execSysop sp tcb (findMount_noStat name) s).trans hsel)]
    refine (hbody m hm relPath hsel).trans ⟨?_,?_⟩
    · intro hP n q hnq
      obtain ⟨rfl,rfl⟩ := Selects.unique hsel hnq
      exact hP
    · exact fun hall => hall m relPath hsel

theorem sure_mountFs {m : W.Mnt} {fs : FileSystem W} (h : (s.mounts m).fs = some fs)
    {Q : FileSystem W → State W → Prop} : Sure sp tcb Q (mountFs m) s ↔ Q fs s := by
  apply Prog.total_of_run
  have hget : (Action.fs m).execSysop sp tcb s = some (some fs,s) := by
    rw [← h]
    rfl
  simp only [mountFs,act,Prog.act_bind,Prog.run_step hget]
  rfl

omit sp tcb in
theorem State.Listed.fs (h : s.Listed xs) {m : W.Mnt} (hm : m ∈ xs) :
    ∃ fs,(s.mounts m).fs = some fs := by
  obtain ⟨p,hp,_⟩ := h.accepted m hm
  exact Option.isSome_iff_exists.mp (Mount.accepted_eq_some.mp hp).1

omit sp tcb in
theorem State.pin_fs (s : State W) (m n : W.Mnt) :
    ((s.pin m).mounts n).fs = (s.mounts n).fs := by
  by_cases hn : n = m
  · subst n
    simp [pin,modifyMount]
  · simp [pin,modifyMount,hn]

omit sp tcb in
/-- An entry that was taken and is given back leaves the rest as it was. -/
theorem State.freed_steady {s s' : State W} {f : Fd} (hfree : (s.files f).tcb = none)
    (hother : ∀ g,g ≠ f → s'.files g = s.files g) (hdirs : s'.dirs = s.dirs)
    (hmounts : (s'.freed f).mounts = s.mounts) : Steady s (s'.freed f) := by
  refine ⟨fun g => ?_,fun g hg => ?_,fun d => ?_,fun n => by rw [hmounts]⟩
  · by_cases hgf : g = f
    · subst g
      rw [s'.freed_self f,hfree]
    · rw [s'.freed_other hgf,hother g hgf]
  · have hgf : g ≠ f := by
      rintro rfl
      rw [hfree] at hg
      cases hg
    rw [s'.freed_other hgf,hother g hgf]
    exact ⟨rfl,rfl⟩
  · rw [s'.freed_dirs f,hdirs]

/-- `vfs_open` runs exactly when the driver of its mount has a table of file operations, or
no entry is free. -/
theorem vfsOpen_lawful (h : s.Listed xs) (name : Option CStr) (flags mode : Nat)
    {Q : Int → State W → Prop}
    (hQ : ∀ r s',s'.Listed xs → Moves tcb s s' r (.open_ name flags mode) → Q r s') :
    (Sure sp tcb Q (Op.open_ name flags mode).prog s ↔
      Served sp tcb s (.open_ name flags mode)) := by
  cases name with
  | none => exact iff_of_true ⟨_,_,rfl,hQ _ _ h (Kept.refl s).steady⟩ trivial
  | some name =>
    refine sure_findMount h ⟨_,_,rfl,hQ _ _ h (Kept.refl s).steady⟩ fun m hm relPath hsel => ?_
    obtain ⟨fs,hfs⟩ := h.fs hm
    simp only [act,Prog.act_bind,Prog.total_bind,sure_mountFs ((s.pin_fs m m).trans hfs),hfs,
      Option.bind_some]
    have hpin : ((s.pin m).unpin m).mounts = s.mounts := State.unpin_pin_mounts rfl
    have hlisted := h.pin m
    rcases vfsOpenBody_outcome tcb fs.fOp m flags (s.pin m) with ⟨hfull,he⟩ | ⟨f,hfree,he⟩
    · refine iff_of_true ?_ (Or.inr hfull)
      have hexec : (Action.initFd fs.fOp m flags).execSysop sp tcb (s.pin m) =
          some (.error (-ENFILE),s.pin m) := he
      simp only [sure_step hexec]
      refine ⟨_,_,rfl,hQ _ _ (h.congr rfl hpin) ?_⟩
      have hneg : (-ENFILE : Int) < 0 := by decide
      simp only [Moves,hneg,if_true]
      exact Kept.steady ⟨hpin,rfl,rfl,fun _ => ⟨rfl,rfl,rfl⟩⟩
    · set s₁ := (s.pin m).modifyFile f (File.opened tcb fs.fOp m flags) with hs₁
      have hexec : (Action.initFd fs.fOp m flags).execSysop sp tcb (s.pin m) =
          some (.ok f,s₁) := he
      have hself : s₁.files f = File.opened tcb fs.fOp m flags (s.files f) := by
        simp [hs₁,State.modifyFile,State.pin,State.modifyMount]
      have hother : ∀ g,g ≠ f → s₁.files g = s.files g := by
        intro g hg
        simp [hs₁,State.modifyFile,hg,State.pin,State.modifyMount]
      have hlisted₁ : s₁.Listed xs := hlisted.congr rfl rfl
      have hopened : (s₁.files f).tcb.isSome ∧ (s₁.files f).mp = some m := by
        rw [hself]
        exact ⟨rfl,rfl⟩
      simp only [sure_step hexec,Prog.total_bind]
      cases hfOp : fs.fOp with
      | none =>
        have hnull : (s₁.files f).fOp = none := by rw [hself]; exact hfOp
        refine iff_of_false (sure_fileOps_null hnull) ?_
        rintro (hno | hfull)
        · cases hno
        · have := hfull f
          rw [show (s.files f).tcb = none from hfree] at this
          cases this
      | some ops =>
        refine iff_of_true ?_ (Or.inl rfl)
        have hops : (s₁.files f).fOp = some ops := by rw [hself]; exact hfOp
        have hpos : ¬((f : Nat) : Int) < 0 := by omega
        simp only [sure_fileOps hops]
        cases hc : ops.open_ with
        | none =>
          refine ⟨_,_,rfl,hQ _ _ hlisted₁ ?_⟩
          simp only [Moves,hpos,if_false]
          exact ⟨f,name,m,relPath,rfl,rfl,hsel,hfree,hopened.1,hopened.2,by rw [hops]; rfl,hother,
            rfl,rfl⟩
        | some f' =>
          simp only [Option.isSome_some,if_true]
          refine sure_fileCall hops (by simp [FileOps.callback,hc]) fun ans s₂ hk hother₂ => ?_
          have hlisted₂ : s₂.Listed xs := hlisted₁.congr hk.list hk.mounts
          split
          · rename_i hneg
            simp only [Prog.total_bind,sure_freeFd]
            refine ⟨_,_,rfl,hQ _ _ (s₂.freed_listed hlisted₂ f) ?_⟩
            simp only [Moves,hneg,if_true]
            have hmounts : (s₂.freed f).mounts = s.mounts := by
              rw [s₂.freed_mounts f,(hk.files f).2.1,hopened.2]
              exact State.unpin_pin_mounts hk.mounts
            exact State.freed_steady hfree (fun g hg => (hother₂ g hg).trans (hother g hg)) hk.dirs hmounts
          · refine ⟨_,_,rfl,hQ _ _ hlisted₂ ?_⟩
            simp only [Moves,hpos,if_false]
            refine ⟨f,name,m,relPath,rfl,rfl,hsel,hfree,?_,?_,?_,
              fun g hg => (hother₂ g hg).trans (hother g hg),hk.dirs,hk.mounts⟩
            · rw [(hk.files f).1]
              exact hopened.1
            · rw [(hk.files f).2.1]
              exact hopened.2
            · rw [(hk.files f).2.2,hops]
              rfl

omit sp tcb in
theorem mountFs_noStat (m : W.Mnt) : (mountFs m : VProg W _).Only NoStat := by
  refine ⟨by simp [NoStat],fun fs => ?_⟩
  cases fs with
  | none => exact ⟨by simp [NoStat],fun r => nomatch r⟩
  | some fs => trivial

omit sp tcb in
theorem vfsOpendir_noStat (d : Option W.Dir) (name : Option CStr) :
    (vfsOpendir d name).Only NoStat := by
  unfold vfsOpendir
  split
  · refine (findMount_noStat _).bind fun r => ?_
    split
    · trivial
    · refine (mountFs_noStat _).bind fun fs => ?_
      split
      · trivial
      · refine ⟨by simp [NoStat],fun _ => ?_⟩
        simp only [Prog.bind]
        split
        · refine ⟨by simp [NoStat],fun ans => ?_⟩
          simp only [Prog.bind]
          split
          · exact ⟨by simp [NoStat],fun _ => trivial⟩
          · trivial
        · trivial
  · trivial

omit sp tcb in
theorem vfsReaddir_noStat (d : Option W.Dir) (entry : Option Dirent) :
    (vfsReaddir d entry).Only NoStat := by
  unfold vfsReaddir
  split
  · refine ⟨by simp [NoStat],fun o => ?_⟩
    simp only [Prog.bind]
    split
    · exact ⟨by simp [NoStat],fun _ => trivial⟩
    · trivial
  · trivial

omit sp tcb in
theorem vfsClosedir_noStat (d : Option W.Dir) : (vfsClosedir d).Only NoStat := by
  cases d with
  | none => trivial
  | some d =>
    refine ⟨by simp [NoStat],fun o => ?_⟩
    simp only [Prog.bind]
    split
    · trivial
    · split
      · exact ⟨by simp [NoStat],fun _ => ⟨by simp [NoStat],fun _ => ⟨by simp [NoStat],
          fun _ => trivial⟩⟩⟩
      · exact ⟨by simp [NoStat],fun _ => ⟨by simp [NoStat],fun _ => trivial⟩⟩

theorem vfsOpendir_lawful (h : s.Listed xs) (d : Option W.Dir) (name : Option CStr) :
    Sure sp tcb (fun r s' => s'.Listed xs ∧ Lawful tcb s (.opendir d name) r s')
      (Op.opendir d name).prog s := by
  cases d with
  | none => exact ⟨_,_,rfl,h,(Kept.refl s).steady,False.elim⟩
  | some d =>
    obtain ⟨r,s',hrun,ho⟩ := vfsOpendir_outcome h tcb d name
    refine ⟨r,s',(run_execSysop sp tcb (vfsOpendir_noStat _ _) s).trans hrun,?_,ho,?_⟩
    · cases ho with
      | unresolved => exact h
      | unsupported => exact h.pin _
      | refused _ _ _ _ hset _ hmounts => exact h.congr hset.list hmounts
      | opened _ _ _ hset _ hmounts => exact (h.pin _).congr hset.list hmounts
    · intro hlacks
      cases ho with
      | unresolved hr => exact hr
      | unsupported => exact show -EINVAL < 0 by decide
      | refused _ _ _ hr => exact hr
      | @opened m name' relPath dOp s' hname hsel hd hset hfiles hmounts =>
        obtain rfl : name = some name' := hname
        obtain ⟨n,q,hnq,hno⟩ := hlacks
        obtain ⟨rfl,rfl⟩ := hsel.unique hnq
        rw [hd] at hno
        cases hno

theorem vfsReaddir_lawful (h : s.Listed xs) (d : Option W.Dir) (entry : Option Dirent) :
    Sure sp tcb (fun r s' => s'.Listed xs ∧ Lawful tcb s (.readdir d entry) r s')
      (Op.readdir d entry).prog s := by
  cases d with
  | none => exact ⟨_,_,rfl,h,(Kept.refl s).steady,False.elim⟩
  | some d =>
    obtain ⟨r,s',hrun,ho⟩ := vfsReaddir_outcome s tcb d entry
    refine ⟨r,s',(run_execSysop sp tcb ((vfsReaddir_noStat _ _).map _) s).trans hrun,?_⟩
    cases ho with
    | unsupported hr hno => exact ⟨h,(Kept.refl s).steady,fun _ => hr⟩
    | read hentry hread hset hfiles hmounts hcalls =>
      refine ⟨h.congr hset.list hmounts,⟨fun f => ?_,fun f _ => ?_,fun e => ?_,fun m => ?_⟩,
        fun hl => ?_⟩
      · rw [hfiles]
      · rw [hfiles]
        exact ⟨rfl,rfl⟩
      · by_cases he : e = d
        · subst e
          exact hset.mp
        · rw [hset.other e he]
      · rw [hmounts]
      · cases entry with
        | none => exact hl.elim
        | some entry =>
          rw [Lacks,Option.isNone_iff_eq_none] at hl
          rw [hl] at hread
          cases hread

theorem vfsClosedir_lawful (h : s.Listed xs) (d : Option W.Dir) :
    Sure sp tcb (fun r s' => s'.Listed xs ∧ Lawful tcb s (.closedir d) r s')
      (Op.closedir d).prog s := by
  cases d with
  | none => exact ⟨_,_,rfl,h,(Kept.refl s).steady,False.elim⟩
  | some d =>
    obtain ⟨r,s',hrun,ho⟩ := vfsClosedir_outcome s tcb d
    refine ⟨r,s',(run_execSysop sp tcb (vfsClosedir_noStat _) s).trans hrun,?_,ho,False.elim⟩
    cases ho with
    | unopened => exact h
    | closed _ hset _ hmounts => exact (h.unpin _).congr hset.list hmounts

/-- A callback of a file system runs, unless it is `vfs_sysop_stat_from_fstat` and the driver
does not serve it. -/
theorem sure_fsCall {m : W.Mnt} {fs : FileSystem W} {req : FsReq}
    (hfs : (s.mounts m).fs = some fs) (hcall : (fs.fsCallback req).isSome)
    {next : FsRet → VProg W ρ} {Q : ρ → State W → Prop}
    (hnext : ∀ ans drv call,Sure sp tcb Q (next ans) (s.returned drv call)) :
    Sure sp tcb Q (Prog.step (.fsCall m req) next) s ↔
      ∀ path,req = .stat path → sp.uses m → sp.Served m fs path s.drv := by
  obtain ⟨callback,hc⟩ := Option.isSome_iff_exists.mp hcall
  have hexec : (Action.fsCall m req).exec tcb s = some (fsCallback m req callback s) := by
    simp [Action.exec,hfs,hc]
  by_cases hstat : ∃ path,req = .stat path ∧ sp.uses m
  · obtain ⟨path,rfl,huses⟩ := hstat
    have hsysop : (Action.fsCall m (.stat path)).execSysop sp tcb s =
        (sp.statFromFstat m fs path s.drv).map fun ans =>
          (⟨ans.res,ans.stat⟩,s.returned ans.drv (.fs m (.stat path) ans.res)) := by
      simp only [Action.execSysop,huses,if_true,hfs,Option.bind_eq_bind,Option.bind_some]
      cases sp.statFromFstat m fs path s.drv <;> rfl
    rw [show (∀ q,FsReq.stat path = .stat q → sp.uses m → sp.Served m fs q s.drv) ↔
        sp.Served m fs path s.drv by simp [huses],← Sysop.statFromFstat_isSome]
    cases hans : sp.statFromFstat m fs path s.drv with
    | none =>
      rw [hans] at hsysop
      refine iff_of_false ?_ (by simp)
      rintro ⟨r,s',hrun,_⟩
      simp only [Prog.run,hsysop] at hrun
      cases hrun
    | some ans =>
      rw [hans] at hsysop
      exact iff_of_true ((sure_step hsysop).mpr (hnext _ _ _)) rfl
  · have hsame : (Action.fsCall m req).execSysop sp tcb s = (Action.fsCall m req).exec tcb s := by
      cases req with
      | stat path =>
        have huses : ¬sp.uses m := fun hu => hstat ⟨path,rfl,hu⟩
        simp only [Action.execSysop,huses]
        rfl
      | _ => rfl
    refine iff_of_true ((sure_step (hsame.trans hexec)).mpr (hnext _ _ _)) ?_
    exact fun path hreq huses => absurd ⟨path,hreq,huses⟩ hstat

omit sp tcb in
theorem State.Frame.steady {s s' : State W} (h : s.Frame s') : Steady s s' :=
  ⟨fun f => by rw [h.files],fun f _ => by rw [h.files]; exact ⟨rfl,rfl⟩,fun d => by rw [h.dirs],
    h.openFiles⟩

theorem vfsMount_lawful (h : s.Listed xs) (mountp : Option W.Mnt) :
    Sure sp tcb (fun r s' => (∃ ys,s'.Listed ys) ∧ Lawful tcb s (.mount mountp) r s')
      (Op.mount mountp).prog s := by
  obtain ⟨r,s',he,ho⟩ := vfsMountBody_outcome h mountp
  obtain ⟨hl,hf⟩ := ho.listed h
  have hexec : (Action.mount mountp).execSysop sp tcb s = some (r,s') := he
  exact (sure_step hexec).mpr ⟨r,s',rfl,⟨_,hl⟩,hf.steady,False.elim⟩

theorem vfsUmount_lawful (h : s.Listed xs) (mountp : Option W.Mnt) (force : Bool) :
    Sure sp tcb (fun r s' => (∃ ys,s'.Listed ys) ∧ Lawful tcb s (.umount mountp force) r s')
      (Op.umount mountp force).prog s := by
  obtain ⟨r,s₁,he,ho⟩ := vfsUmountCheck_outcome h mountp
  obtain ⟨hl,hf⟩ := ho.listed h
  have hexec : (Action.umountCheck mountp).execSysop sp tcb s = some (r,s₁) := he
  refine (sure_step hexec).mpr ?_
  cases ho with
  | invalid => exact ⟨_,_,rfl,⟨_,hl⟩,hf.steady,False.elim⟩
  | passed => exact ⟨_,_,rfl,⟨_,hl⟩,hf.steady,False.elim⟩
  | @busy m p hm hp =>
    obtain ⟨fs,hfs⟩ := h.fs hm
    obtain ⟨r,s₂,he₂,ho₂⟩ := vfsUmountBody_outcome h hfs force
    obtain ⟨hl₂,hf₂⟩ := ho₂.listed h
    have hexec₂ : (Action.umount m force).execSysop sp tcb s = some (r,s₂) := he₂
    exact (sure_step hexec₂).mpr ⟨_,_,rfl,⟨_,hl₂⟩,hf₂.steady,False.elim⟩

theorem vfsFormat_lawful (h : s.Listed xs) (mountp : Option W.Mnt) :
    Sure sp tcb (fun r s' => (∃ ys,s'.Listed ys) ∧ Lawful tcb s (.format mountp) r s')
      (Op.format mountp).prog s := by
  obtain ⟨r,s₁,he,ho⟩ := vfsFormatCheck_outcome h mountp
  obtain ⟨hl,hf⟩ := ho.listed h
  have hexec : (Action.formatCheck mountp).execSysop sp tcb s = some (r,s₁) := he
  refine (sure_step hexec).mpr ?_
  cases ho with
  | invalid => exact ⟨_,_,rfl,⟨_,hl⟩,hf.steady,fun _ => show -EINVAL < 0 by decide⟩
  | busy => exact ⟨_,_,rfl,⟨_,hl⟩,hf.steady,fun _ => show -EBUSY < 0 by decide⟩
  | @passed m p hm hp =>
    obtain ⟨fs,hfs⟩ := Option.isSome_iff_exists.mp (Mount.accepted_eq_some.mp hp).1
    have hfs₁ : ((s.withLen m p).mounts m).fs = some fs := (hf.fs m).trans hfs
    simp only [Prog.bind,lt_irrefl,if_false,Prog.total_bind,sure_mountFs hfs₁]
    cases hc : fs.fsCallback .format with
    | none => exact ⟨_,_,rfl,⟨_,hl⟩,hf.steady,fun _ => show -ENOTSUP < 0 by decide⟩
    | some f =>
      refine (sure_fsCall hfs₁ (by rw [hc]; rfl) fun ans drv call => ?_).mpr
        fun path hpath _ => by cases hpath
      have hsteady : Steady s (s.withLen m p) := hf.steady
      refine ⟨_,_,rfl,⟨_,hl.congr rfl rfl⟩,⟨hsteady.tcb,hsteady.entry,hsteady.dirs,hsteady.openFiles⟩,
        fun hlacks => ?_⟩
      simp [Lacks,hfs,hc] at hlacks

omit sp in
/-- Where the name resolves to `m`, the mount lacks a callback when its file system does. -/
theorem Selects.lacksFs_iff {name : CStr} {m : W.Mnt} {relPath : CStr}
    (hsel : Selects tcb s name m relPath) {fs : FileSystem W} (hfs : (s.mounts m).fs = some fs)
    (req : CStr → FsReq) : LacksFs tcb s name req ↔ (fs.fsCallback (req relPath)).isNone := by
  constructor
  · rintro ⟨n,q,hnq,hno⟩
    obtain ⟨rfl,rfl⟩ := hsel.unique hnq
    simpa [hfs] using hno
  · exact fun hno => ⟨m,relPath,hsel,by simpa [hfs] using hno⟩

theorem vfsPathOp_lawful (h : s.Listed xs) {missing : Int} (hmissing : 0 < missing)
    (req : CStr → FsReq) (name : CStr) {Q : Int × Option Stat → State W → Prop}
    (hQ : ∀ r s',s'.Listed xs → Steady s s' → (LacksFs tcb s name req → r.1 < 0) → Q r s') :
    Sure sp tcb Q (vfsPathOp missing req name) s ↔ ∀ m relPath,Selects tcb s name m relPath →
        ∀ path,req relPath = .stat path → sp.uses m → ∀ fs ∈ (s.mounts m).fs,
          (fs.fsCallback (.stat path)).isSome → sp.Served m fs path s.drv := by
  refine sure_findMount h ?_ fun m hm relPath hsel => ?_
  · exact ⟨_,_,rfl,hQ _ _ h (Kept.refl s).steady fun _ => show -ENOENT < 0 by decide⟩
  obtain ⟨fs,hfs⟩ := h.fs hm
  have hfs₁ : ((s.pin m).mounts m).fs = some fs := (s.pin_fs m m).trans hfs
  have hpin : ((s.pin m).unpin m).mounts = s.mounts := State.unpin_pin_mounts rfl
  simp only [act,Prog.act_bind,Prog.total_bind,sure_mountFs hfs₁]
  cases hc : fs.fsCallback (req relPath) with
  | none =>
    refine iff_of_true ⟨_,_,rfl,hQ _ _ (h.congr rfl hpin)
      (Kept.steady ⟨hpin,rfl,rfl,fun _ => ⟨rfl,rfl,rfl⟩⟩) fun _ => ?_⟩ ?_
    · change -missing < 0
      omega
    · intro path hreq _ fs' hfs' hsome
      obtain rfl : fs = fs' := by simpa [hfs] using hfs'
      rw [← hreq,hc] at hsome
      cases hsome
  | some f =>
    refine (sure_fsCall hfs₁ (by rw [hc]; rfl) fun ans drv call => ?_).trans ?_
    · refine ⟨_,_,rfl,hQ _ _ (h.congr rfl hpin) (Kept.steady ⟨hpin,rfl,rfl,fun _ => ⟨rfl,rfl,rfl⟩⟩)
        ?_⟩
      intro hlacks
      rw [hsel.lacksFs_iff hfs,hc] at hlacks
      cases hlacks
    · constructor
      · intro hserved path hreq huses fs' hfs' _
        obtain rfl : fs = fs' := by simpa [hfs] using hfs'
        exact hserved path hreq huses
      · intro hserved path hreq huses
        exact hserved path hreq huses fs hfs (by rw [← hreq,hc]; rfl)

theorem vfsUnlink_lawful (h : s.Listed xs) (name : Option CStr) :
    Sure sp tcb (fun r s' => s'.Listed xs ∧ Lawful tcb s (.unlink name) r s')
      (Op.unlink name).prog s := by
  cases name with
  | none => exact ⟨_,_,rfl,h,(Kept.refl s).steady,False.elim⟩
  | some name =>
    refine Prog.total_map.mpr ((vfsPathOp_lawful h (by decide) _ name
      fun _ _ hl hs hneg => ⟨hl,hs,hneg⟩).mpr ?_)
    exact fun _ _ _ _ hreq => by cases hreq

theorem vfsMkdir_lawful (h : s.Listed xs) (name : Option CStr) (mode : Nat) :
    Sure sp tcb (fun r s' => s'.Listed xs ∧ Lawful tcb s (.mkdir name mode) r s')
      (Op.mkdir name mode).prog s := by
  cases name with
  | none => exact ⟨_,_,rfl,h,(Kept.refl s).steady,False.elim⟩
  | some name =>
    refine Prog.total_map.mpr ((vfsPathOp_lawful h (by decide) _ name
      fun _ _ hl hs hneg => ⟨hl,hs,hneg⟩).mpr ?_)
    exact fun _ _ _ _ hreq => by cases hreq

theorem vfsRmdir_lawful (h : s.Listed xs) (name : Option CStr) :
    Sure sp tcb (fun r s' => s'.Listed xs ∧ Lawful tcb s (.rmdir name) r s')
      (Op.rmdir name).prog s := by
  cases name with
  | none => exact ⟨_,_,rfl,h,(Kept.refl s).steady,False.elim⟩
  | some name =>
    refine Prog.total_map.mpr ((vfsPathOp_lawful h (by decide) _ name
      fun _ _ hl hs hneg => ⟨hl,hs,hneg⟩).mpr ?_)
    exact fun _ _ _ _ hreq => by cases hreq

theorem vfsStat_lawful (h : s.Listed xs) (path : Option CStr) (buf : Option Stat)
    {Q : Int → State W → Prop}
    (hQ : ∀ r s',s'.Listed xs → Lawful tcb s (.stat path buf) r s' → Q r s') :
    Sure sp tcb Q (Op.stat path buf).prog s ↔ Served sp tcb s (.stat path buf) := by
  cases path with
  | none => exact iff_of_true ⟨_,_,rfl,hQ _ _ h ⟨(Kept.refl s).steady,False.elim⟩⟩ trivial
  | some path =>
    cases buf with
    | none => exact iff_of_true ⟨_,_,rfl,hQ _ _ h ⟨(Kept.refl s).steady,False.elim⟩⟩ trivial
    | some buf =>
      simp only [Op.prog,vfsStat,Prog.total_map,Prog.total_bind,Prog.pure_eq,Prog.total_ret]
      refine (vfsPathOp_lawful h (by decide) .stat path
        fun _ _ hl hs hneg => hQ _ _ hl ⟨hs,hneg⟩).trans ?_
      constructor
      · exact fun hall m relPath hsel huses fs hfs hsome =>
          hall m relPath hsel relPath rfl huses fs hfs hsome
      · rintro hserved m relPath hsel _ ⟨⟩ huses fs hfs hsome
        exact hserved m relPath hsel huses fs hfs hsome

omit sp tcb in
theorem State.unpin_unpin_mounts {s' : State W} {m n : W.Mnt}
    (h : s'.mounts = ((s.pin m).pin n).mounts) : ((s'.unpin m).unpin n).mounts = s.mounts := by
  funext k
  by_cases hm : k = m <;> by_cases hn : k = n
  · subst hm hn
    simp [unpin,modifyMount,h,pin]
  · subst hm
    simp [unpin,modifyMount,h,pin,hn]
  · subst hn
    simp [unpin,modifyMount,h,pin,hm]
  · simp [unpin,modifyMount,h,pin,hm,hn]

theorem vfsRename_lawful (h : s.Listed xs) (fromPath toPath : Option CStr) :
    Sure sp tcb (fun r s' => s'.Listed xs ∧ Lawful tcb s (.rename fromPath toPath) r s')
      (Op.rename fromPath toPath).prog s := by
  cases fromPath with
  | none => exact ⟨_,_,rfl,h,(Kept.refl s).steady,False.elim⟩
  | some fromPath =>
    cases toPath with
    | none => exact ⟨_,_,rfl,h,(Kept.refl s).steady,False.elim⟩
    | some toPath =>
      refine (sure_findMount h ?_ fun m hm relFrom hsel => iff_of_true ?_ trivial).mpr
        fun _ _ _ => trivial
      · exact ⟨_,_,rfl,h,(Kept.refl s).steady,fun _ => show -ENOENT < 0 by decide⟩
      obtain ⟨fs,hfs⟩ := h.fs hm
      have hfs₁ : ((s.pin m).mounts m).fs = some fs := (s.pin_fs m m).trans hfs
      have hpin : ((s.pin m).unpin m).mounts = s.mounts := State.unpin_pin_mounts rfl
      simp only [Prog.total_bind,sure_mountFs hfs₁]
      cases hc : fs.fsOp.bind (·.rename) with
      | none =>
        exact ⟨_,_,rfl,h.congr rfl hpin,Kept.steady ⟨hpin,rfl,rfl,fun _ => ⟨rfl,rfl,rfl⟩⟩,
          fun _ => show -EROFS < 0 by decide⟩
      | some f =>
        have hcall : (fs.fsCallback (.rename relFrom toPath)).isSome := by
          obtain ⟨ops,hops,hrename⟩ := Option.bind_eq_some_iff.mp hc
          simp [FileSystem.fsCallback,hops,FsOps.callback,hrename]
        have hhas : ¬LacksFs tcb s fromPath (.rename · toPath) := by
          rw [hsel.lacksFs_iff hfs]
          simpa [Option.isSome_iff_ne_none] using hcall
        refine (sure_findMount (h.pin m) ?_ fun n hn relTo hsel₂ => iff_of_true ?_ trivial).mpr
          fun _ _ _ => trivial
        · exact ⟨_,_,rfl,h.congr rfl hpin,Kept.steady ⟨hpin,rfl,rfl,fun _ => ⟨rfl,rfl,rfl⟩⟩,
            fun _ => show -ENOENT < 0 by decide⟩
        have hback : ((((s.pin m).pin n).unpin m).unpin n).mounts = s.mounts :=
          State.unpin_unpin_mounts rfl
        by_cases hnm : n = m
        · subst n
          simp only [ne_eq,not_true_eq_false,if_false]
          have hfs₂ : (((s.pin m).pin m).mounts m).fs = some fs :=
            ((s.pin m).pin_fs m m).trans hfs₁
          refine (sure_fsCall hfs₂ ?_ fun ans drv call => ?_).mpr fun path hreq _ => by cases hreq
          · obtain ⟨ops,hops,hrename⟩ := Option.bind_eq_some_iff.mp hc
            simp [FileSystem.fsCallback,hops,FsOps.callback,hrename]
          · exact ⟨_,_,rfl,h.congr rfl hback,Kept.steady ⟨hback,rfl,rfl,fun _ => ⟨rfl,rfl,rfl⟩⟩,
              fun hl => absurd hl hhas⟩
        · simp only [ne_eq,hnm,not_false_eq_true,if_true]
          exact ⟨_,_,rfl,h.congr rfl hback,Kept.steady ⟨hback,rfl,rfl,fun _ => ⟨rfl,rfl,rfl⟩⟩,
            fun hl => absurd hl hhas⟩

/-- Every operation but `vfs_opendir` runs to its end exactly when its driver serves it, and that
one always does. -/
def Defined (sp : Sysop W) (tcb : W.Task) (s : State W) : Op W → Prop
  | .opendir _ _ => True
  | op => Served sp tcb s op

/-- A call of an operation that serves every driver. -/
private theorem ends_of_sure {op : Op W} {P : State W → Prop} {Q : Int → State W → Prop}
    (htrivial : Defined sp tcb s op) (hP : ∀ s',P s' → ∃ ys,s'.Listed ys)
    (hQ : ∀ r s',(∃ ys,s'.Listed ys) → Lawful tcb s op r s' → Q r s')
    (hsure : Sure sp tcb (fun r s' => P s' ∧ Lawful tcb s op r s') op.prog s) :
    Sure sp tcb Q op.prog s ↔ Defined sp tcb s op :=
  iff_of_true (hsure.mono fun r s' hl => hQ r s' (hP s' hl.1) hl.2) htrivial

/-- A call that runs to its end has done what it may, and it does run exactly when it is
defined. -/
theorem ends_iff_defined (h : s.Listed xs) (op : Op W) {Q : Int → State W → Prop}
    (hQ : ∀ r s',(∃ ys,s'.Listed ys) → Lawful tcb s op r s' → Q r s') :
    Sure sp tcb Q op.prog s ↔ Defined sp tcb s op := by
  have hxs : ∀ s' : State W,s'.Listed xs → ∃ ys,s'.Listed ys := fun s' hl => ⟨xs,hl⟩
  have hkept : ∀ {s' : State W},Kept s s' → s'.Listed xs := fun hk => h.congr hk.list hk.mounts
  cases op with
  | open_ name flags mode =>
    exact vfsOpen_lawful h name flags mode fun r s' hl hm => hQ r s' ⟨xs,hl⟩ ⟨hm,False.elim⟩
  | stat path buf => exact vfsStat_lawful h path buf fun r s' hl hm => hQ r s' ⟨xs,hl⟩ hm
  | opendir d name => exact ends_of_sure trivial hxs hQ (vfsOpendir_lawful h d name)
  | close fd =>
    exact ends_of_sure trivial hxs hQ ((vfsClose_lawful h fd).mono fun _ _ hl =>
      ⟨hl.1,hl.2,False.elim⟩)
  | fstat fd buf =>
    exact ends_of_sure trivial hxs hQ ((vfsFstat_lawful fd buf).mono fun _ _ hl =>
      ⟨hkept hl.1,hl.1.steady,hl.2⟩)
  | lseek fd off whence =>
    exact ends_of_sure trivial hxs hQ ((vfsLseek_lawful fd off whence).mono fun _ _ hl =>
      ⟨hkept hl,hl.steady,False.elim⟩)
  | read fd dest count =>
    exact ends_of_sure trivial hxs hQ ((vfsRead_lawful fd dest count).mono fun _ _ hl =>
      ⟨hkept hl.1,hl.1.steady,hl.2⟩)
  | write fd src =>
    exact ends_of_sure trivial hxs hQ ((vfsWrite_lawful fd src).mono fun _ _ hl =>
      ⟨hkept hl.1,hl.1.steady,hl.2⟩)
  | fsync fd =>
    exact ends_of_sure trivial hxs hQ ((vfsFsync_lawful fd).mono fun _ _ hl =>
      ⟨hkept hl.1,hl.1.steady,hl.2⟩)
  | readdir d entry => exact ends_of_sure trivial hxs hQ (vfsReaddir_lawful h d entry)
  | closedir d => exact ends_of_sure trivial hxs hQ (vfsClosedir_lawful h d)
  | format mountp => exact ends_of_sure trivial (fun _ hl => hl) hQ (vfsFormat_lawful h mountp)
  | mount mountp => exact ends_of_sure trivial (fun _ hl => hl) hQ (vfsMount_lawful h mountp)
  | umount mountp force =>
    exact ends_of_sure trivial (fun _ hl => hl) hQ (vfsUmount_lawful h mountp force)
  | rename fromPath toPath =>
    exact ends_of_sure trivial hxs hQ (vfsRename_lawful h fromPath toPath)
  | unlink name => exact ends_of_sure trivial hxs hQ (vfsUnlink_lawful h name)
  | mkdir name mode => exact ends_of_sure trivial hxs hQ (vfsMkdir_lawful h name mode)
  | rmdir name => exact ends_of_sure trivial hxs hQ (vfsRmdir_lawful h name)

end Calls

end UcVfs
