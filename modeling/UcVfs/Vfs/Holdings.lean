import UcVfs.Vfs.Operations
import UcVfs.Framework.Interleaving

/-!
# Who holds what

Bookkeeping over the interleaved calls: the pins, the descriptor and the DIR object that a
call holds, and what the finished calls have left behind. It follows the actions and their
answers; the program never reads it.
-/

namespace UcVfs

open Framework

/-- A descriptor as its `vfs_open` initialised it. -/
structure FdHandle (W : World) where
  mp : W.Mnt
  fOp : Option (FileOps W)
  flags : Nat

structure DirHandle (W : World) where
  mp : W.Mnt
  dOp : DirOps W

/-- What a call in progress holds: the pins it has taken and not given back, its descriptor
and its DIR object, the latter with a handle while it is open. Also what it started from and
what it has seen: the descriptor it was given, whether it was given an open DIR, the mount
found last, whether it called a file callback, and the mount that passed its check, with
whether it was in the list. -/
structure Hold (W : World) where
  pins : W.Mnt → ℕ
  fd : Option (Fd × FdHandle W)
  dir : Option (W.Dir × Option (DirHandle W))
  given : Option (Fd × FdHandle W)
  reopened : Bool
  found : Option W.Mnt
  called : Bool
  checked : Option (W.Mnt × Bool)

/-- What no call in progress holds: open descriptors, open DIR objects, and the pins that
calls have taken and never given back. -/
structure Pool (W : World) where
  fds : Fd → Option (FdHandle W)
  dirs : W.Dir → Option (DirHandle W)
  leak : W.Mnt → ℕ

variable {W : World}

/-- One pin on `m`. -/
def one (m : W.Mnt) (n : W.Mnt) : ℕ := if n = m then 1 else 0

@[simp] theorem one_self (m : W.Mnt) : one m m = 1 := if_pos rfl

theorem one_of_ne {m n : W.Mnt} (h : n ≠ m) : one m n = 0 := if_neg h

def FdHandle.pins (hd : Option (FdHandle W)) (m : W.Mnt) : ℕ :=
  match hd with
  | none => 0
  | some hd => one hd.mp m

def DirHandle.pins (hd : Option (DirHandle W)) (m : W.Mnt) : ℕ :=
  match hd with
  | none => 0
  | some hd => one hd.mp m

namespace Hold

def idle : Hold W := ⟨fun _ => 0,none,none,none,false,none,false,none⟩

def ofFd (f : Fd) (hd : FdHandle W) : Hold W :=
  ⟨one hd.mp,some (f,hd),none,some (f,hd),false,none,false,none⟩

def ofDir (d : W.Dir) (o : Option (DirHandle W)) : Hold W :=
  ⟨DirHandle.pins o,none,some (d,o),none,o.isSome,none,false,none⟩

/-- The pins that go with the descriptor and the DIR object. -/
def handlePins (h : Hold W) (m : W.Mnt) : ℕ :=
  FdHandle.pins (h.fd.map (·.2)) m + DirHandle.pins (h.dir.bind (·.2)) m

def fdWeight (f : Fd) (h : Hold W) : ℕ := if h.fd.map (·.1) = some f then 1 else 0

def dirWeight (d : W.Dir) (h : Hold W) : ℕ := if h.dir.map (·.1) = some d then 1 else 0

/-- How the holdings follow an action and its answer. -/
def next (h : Hold W) : (x : Action W) → x.Resp → Hold W
  | .findMount _,.ok (m,_) => { h with pins := h.pins + one m, found := some m }
  | .unpin m,_ => { h with pins := h.pins - one m }
  | .initFd fOp m flags,.ok fd => { h with fd := some (fd,⟨m,fOp,flags⟩) }
  | .clearTcb _,_ => { h with fd := none }
  | .initDir d m dOp,_ => { h with dir := some (d,some ⟨m,dOp⟩) }
  | .clearDir d,_ => { h with dir := some (d,none) }
  | .dirCall d (.opendir _),r => if r.res < 0 then { h with dir := some (d,none) } else h
  | .fileCall _ _,_ => { h with called := true }
  | .umountCheck (some m),r => if r = -EBUSY then { h with checked := some (m,true) } else h
  | .formatCheck (some m),r => if r = 0 then { h with checked := some (m,false) } else h
  | .umount _ _,_ => { h with checked := none }
  | .fsCall _ .format,_ => { h with checked := none }
  | _,_ => h

/-- What an action can do to the holdings. -/
inductive Follows (h : Hold W) : Action W → Hold W → Prop
  | same (x : Action W) : Follows h x h
  | found (name : CStr) (m : W.Mnt) :
    Follows h (.findMount name) { h with pins := h.pins + one m, found := some m }
  | unpinned (m : W.Mnt) : Follows h (.unpin m) { h with pins := h.pins - one m }
  | gotFd (fOp : Option (FileOps W)) (m : W.Mnt) (flags : Nat) (fd : Option (Fd × FdHandle W)) :
    Follows h (.initFd fOp m flags) { h with fd := fd }
  | lostFd (f : Fd) : Follows h (.clearTcb f) { h with fd := none }
  | dir (x : Action W) (dir : Option (W.Dir × Option (DirHandle W))) :
    Follows h x { h with dir := dir }
  | called (x : Action W) : Follows h x { h with called := true }
  | checked (x : Action W) (m : Option (W.Mnt × Bool)) : Follows h x { h with checked := m }

theorem next_follows (h : Hold W) (x : Action W) (r : x.Resp) : h.Follows x (h.next x r) := by
  cases x with
  | findMount name =>
    cases r with
    | error => exact .same _
    | ok found => exact .found name found.1
  | initFd =>
    cases r with
    | error => exact .same _
    | ok fd => exact .gotFd _ _ _ _
  | unpin m => exact .unpinned m
  | clearTcb f => exact .lostFd f
  | initDir | clearDir => exact .dir _ _
  | dirCall d req =>
    cases req with
    | opendir =>
      simp only [next]
      split
      · exact .dir _ _
      · exact .same _
    | _ => exact .same _
  | fileCall => exact .called _
  | umountCheck mountp | formatCheck mountp =>
    cases mountp with
    | none => exact .same _
    | some m =>
      simp only [next]
      split
      · exact .checked _ _
      · exact .same _
  | umount => exact .checked _ _
  | fsCall m req =>
    cases req with
    | format => exact .checked _ _
    | _ => exact .same _
  | _ => exact .same _

end Hold

namespace Op

/-- The entry that a descriptor argument denotes. -/
def fdArg : Op W → Option Fd
  | close fd | fstat fd _ | lseek fd _ _ | read fd _ _ | write fd _ | fsync fd => fdIndex fd
  | _ => none

def dirArg : Op W → Option W.Dir
  | opendir dirp _ | readdir dirp _ | closedir dirp => dirp
  | _ => none

end Op

namespace Pool

def empty : Pool W := ⟨fun _ => none,fun _ => none,fun _ => 0⟩

/-- A call takes the descriptor or the DIR object that it is made on out of the pool. -/
def begin (K : Pool W) (_ : W.Task) (op : Op W) : Pool W × Hold W :=
  match op.fdArg,op.dirArg with
  | some f,_ =>
    match K.fds f with
    | none => (K,Hold.idle)
    | some hd => ({ K with fds := Function.update K.fds f none },Hold.ofFd f hd)
  | none,some d => ({ K with dirs := Function.update K.dirs d none },Hold.ofDir d (K.dirs d))
  | none,none => (K,Hold.idle)

/-- A finished call puts its descriptor and its open DIR object into the pool; other pins
that it still holds are lost. -/
def finish (K : Pool W) (_ : W.Task) (_ : Op W) (h : Hold W) (_ : Int) : Pool W where
  fds := match h.fd with
    | none => K.fds
    | some (f,hd) => Function.update K.fds f (some hd)
  dirs := match h.dir with
    | some (d,some hd) => Function.update K.dirs d (some hd)
    | _ => K.dirs
  leak := fun m => K.leak m + (h.pins m - h.handlePins m)

def pins (K : Pool W) (m : W.Mnt) : ℕ :=
  K.leak m + ∑ f,FdHandle.pins (K.fds f) m + ∑ d,DirHandle.pins (K.dirs d) m

def fdWeight (K : Pool W) (f : Fd) : ℕ := if (K.fds f).isSome then 1 else 0

def dirWeight (K : Pool W) (d : W.Dir) : ℕ := if (K.dirs d).isSome then 1 else 0

end Pool

/-- The VFS layer as a system of interleaved tasks. -/
def vfs (W : World) : System (Action.Resp (W := W)) (State W) (Pool W) W.Task (Op W) Int
    (Hold W) where
  prog := Op.prog
  exec := Action.exec
  begin := Pool.begin
  next := Hold.next
  finish := Pool.finish
  idle := Hold.idle

abbrev VConfig (W : World) := Config (Action.Resp (W := W)) (State W) (Pool W) W.Task (Op W) Int
  (Hold W)

abbrev VLabel (W : World) := Label (Action.Resp (W := W)) W.Task (Op W) Int

/-- All pins on `m`: those of the calls in progress, of open descriptors and DIR objects, and
the lost ones. -/
def totalPins (K : Pool W) (L : W.Task → Hold W) (m : W.Mnt) : ℕ :=
  ledger (K.pins m) (fun h => h.pins m) L

/-- How many hold the descriptor `f`: the pool or calls in progress. -/
def fdHolders (K : Pool W) (L : W.Task → Hold W) (f : Fd) : ℕ :=
  ledger (K.fdWeight f) (Hold.fdWeight f) L

def dirHolders (K : Pool W) (L : W.Task → Hold W) (d : W.Dir) : ℕ :=
  ledger (K.dirWeight d) (Hold.dirWeight d) L

end UcVfs
