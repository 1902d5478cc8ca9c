import UcVfs.Devices.Ramdisk

/-!
# The RAM disks as flat memories

Calls of `ramdisk.c` on both disks, one after the other. What a read delivers is told from the
history of the calls that succeeded, without the memory of the disks.
-/

namespace UcVfs

open Framework

/-- `disks`, each from its `mem` on. -/
abbrev Disks := Fin 2 → Mem

/-- What `ramdisk_init` fills a disk with. -/
def initialFill (no : Fin 2) : UInt8 := if no = 0 then 0 else 0xFF

def ramdiskInit (disks : Disks) : Int × Disks :=
  (0,fun no => memset (disks no) 0 (initialFill no) RAMDISK_MAX_SIZE.toNat)

/-- A call of one of the five functions; a null pointer is `none`. -/
inductive DiskCall
  | read (disk : Option (Fin 2)) (buf : Option Mem) (startSec : UInt32) (off : OffT) (sz : UInt32)
  | readAddr (disk : Option (Fin 2)) (buf : Option Mem) (addr sz : UInt32)
  | write (disk : Option (Fin 2)) (buf : Option Mem) (startSec : UInt32) (off : OffT) (sz : UInt32)
  | writeAddr (disk : Option (Fin 2)) (buf : Option Mem) (addr sz : UInt32)
  | eraseAddr (disk : Option (Fin 2)) (addr sz : UInt32)

/-- What a call returns and leaves in its buffer and on the disks. -/
structure DiskAnswer where
  res : Int
  buf : Option Mem
  disks : Disks

def Disks.put (s : Disks) (disk : Option (Fin 2)) (mem : Option Mem) : Disks :=
  match disk,mem with
  | some no,some mem => Function.update s no mem
  | _,_ => s

namespace DiskCall

def exec (s : Disks) : DiskCall → DiskAnswer
  | read disk buf startSec off sz =>
    let (res,buf) := ramdiskRead (disk.map s) buf startSec off sz
    ⟨res,buf,s⟩
  | readAddr disk buf addr sz =>
    let (res,buf) := ramdiskReadAddr (disk.map s) buf addr sz
    ⟨res,buf,s⟩
  | write disk buf startSec off sz =>
    let (res,mem) := ramdiskWrite (disk.map s) buf startSec off sz
    ⟨res,buf,s.put disk mem⟩
  | writeAddr disk buf addr sz =>
    let (res,mem) := ramdiskWriteAddr (disk.map s) buf addr sz
    ⟨res,buf,s.put disk mem⟩
  | eraseAddr disk addr sz =>
    let (res,mem) := ramdiskEraseAddr (disk.map s) addr sz
    ⟨res,none,s.put disk mem⟩

def disk : DiskCall → Option (Fin 2)
  | read disk _ _ _ _ | readAddr disk _ _ _ | write disk _ _ _ _ | writeAddr disk _ _ _
  | eraseAddr disk _ _ => disk

def buf : DiskCall → Option Mem
  | read _ buf _ _ _ | readAddr _ buf _ _ | write _ buf _ _ _ | writeAddr _ buf _ _ => buf
  | eraseAddr _ _ _ => none

def sz : DiskCall → UInt32
  | read _ _ _ _ sz | readAddr _ _ _ sz | write _ _ _ _ sz | writeAddr _ _ _ sz
  | eraseAddr _ _ sz => sz

/-- The offset of a call that takes one. -/
def off : DiskCall → Int
  | read _ _ _ off _ | write _ _ _ off _ => off
  | _ => 0

/-- The first byte that the call asks for, as an exact number. -/
def start : DiskCall → Int
  | read _ _ startSec off _ | write _ _ startSec off _ => startSec.toNat * 512 + off
  | readAddr _ _ addr _ | writeAddr _ _ addr _ | eraseAddr _ addr _ => addr.toNat

def isErase : DiskCall → Bool
  | eraseAddr _ _ _ => true
  | _ => false

def isRead : DiskCall → Bool
  | read _ _ _ _ _ | readAddr _ _ _ _ => true
  | _ => false

/-- The call with its range given as a byte address. -/
def byAddr (addr : UInt32) : DiskCall → DiskCall
  | read disk buf _ _ sz => readAddr disk buf addr sz
  | write disk buf _ _ sz => writeAddr disk buf addr sz
  | call => call

/-- No null pointer. -/
def HasPointers (call : DiskCall) : Prop := call.disk.isSome ∧ (call.buf.isSome ∨ call.isErase)

/-- An offset that is not negative, and a range inside the disk. -/
def InRange (call : DiskCall) : Prop :=
  0 ≤ call.off ∧ call.start + call.sz.toNat ≤ RAMDISK_MAX_SIZE.toNat

/-- What a call of a given result stored on a disk. -/
def store (no : Fin 2) (call : DiskCall) (res : Int) : Option Store :=
  if 0 < res ∧ call.disk = some no ∧ ¬call.isRead then
    some ⟨call.start.toNat,call.sz.toNat,if call.isErase then fun _ => 0xFF else call.buf.getD 0⟩
  else
    none

/-- The state after a sequence of calls. -/
def runs (s : Disks) (calls : List DiskCall) : Disks :=
  calls.foldl (fun s call => (call.exec s).disks) s

/-- What a sequence of calls stored on a disk, oldest first. -/
def history (no : Fin 2) : Disks → List DiskCall → List Store
  | _,[] => []
  | s,call :: calls =>
    (call.store no (call.exec s).res).toList ++ history no (call.exec s).disks calls

/-- The range check of the call. -/
def check : DiskCall → Except Int UInt32
  | read _ _ startSec off sz | write _ _ startSec off sz => secRange startSec off sz
  | readAddr _ _ addr sz | writeAddr _ _ addr sz | eraseAddr _ addr sz => addrRange addr sz

/-- The buffer and the disks after the transfer of a range. -/
def transferred (s : Disks) (no : Fin 2) (addr : ℕ) : DiskCall → Option Mem × Disks
  | read _ buf _ _ sz | readAddr _ buf _ sz =>
    (buf.map fun buf => memcpy buf 0 (s no) addr sz.toNat,s)
  | write _ buf _ _ sz | writeAddr _ buf _ sz =>
    (buf,s.put (some no) (buf.map fun buf => memcpy (s no) addr buf 0 sz.toNat))
  | eraseAddr _ _ sz => (none,s.put (some no) (some (memset (s no) addr 0xFF sz.toNat)))

@[simp] theorem put_none (s : Disks) (mem : Option Mem) : s.put none mem = s := rfl

@[simp] theorem put_nothing (s : Disks) (disk : Option (Fin 2)) : s.put disk none = s := by
  cases disk <;> rfl

@[simp] theorem put_self (s : Disks) (no : Fin 2) : s.put (some no) (some (s no)) = s :=
  Function.update_eq_self no s

section Exec

variable {s : Disks} {call : DiskCall}

theorem exec_null (h : ¬call.HasPointers) : call.exec s = ⟨-EINVAL,call.buf,s⟩ := by
  cases call with
  | read disk buf startSec off sz | readAddr disk buf addr sz | write disk buf startSec off sz
  | writeAddr disk buf addr sz =>
    cases disk with
    | none => rfl
    | some no =>
      cases buf with
      | none => simp [exec,ramdiskRead,ramdiskReadAddr,ramdiskWrite,ramdiskWriteAddr,DiskCall.buf]
      | some mem => exact absurd ⟨rfl,Or.inl rfl⟩ h
  | eraseAddr disk addr sz =>
    cases disk with
    | none => rfl
    | some no => exact absurd ⟨rfl,Or.inr rfl⟩ h

/-- With both pointers a call is its check followed by its transfer. -/
theorem exec_pointers {no : Fin 2} (hdisk : call.disk = some no)
    (hbuf : call.buf.isSome ∨ call.isErase) :
    call.exec s =
      if call.sz = 0 then ⟨0,call.buf,s⟩
      else match call.check with
        | .error res => ⟨res,call.buf,s⟩
        | .ok addr =>
          ⟨call.sz.toNat,(call.transferred s no addr.toNat).1,
            (call.transferred s no addr.toNat).2⟩ := by
  cases call with
  | read disk buf startSec off sz | readAddr disk buf addr sz | write disk buf startSec off sz
  | writeAddr disk buf addr sz =>
    obtain rfl : disk = some no := hdisk
    cases buf with
    | none => simp [DiskCall.buf,isErase] at hbuf
    | some mem =>
      by_cases hsz : sz = 0
      · simp [exec,ramdiskRead,ramdiskReadAddr,ramdiskWrite,ramdiskWriteAddr,transfer,DiskCall.sz,
          DiskCall.buf,hsz]
      · simp only [exec,ramdiskRead,ramdiskReadAddr,ramdiskWrite,ramdiskWriteAddr,transfer,
          DiskCall.sz,DiskCall.buf,check,transferred,hsz,if_false,Option.map_some]
        split <;> simp [*]
  | eraseAddr disk addr sz =>
    obtain rfl : disk = some no := hdisk
    by_cases hsz : sz = 0
    · simp [exec,ramdiskEraseAddr,transfer,DiskCall.sz,DiskCall.buf,hsz]
    · cases hcheck : addrRange addr sz <;>
        simp [exec,ramdiskEraseAddr,transfer,DiskCall.sz,DiskCall.buf,check,transferred,hsz,hcheck]

theorem start_nonneg (hoff : 0 ≤ call.off) : 0 ≤ call.start := by
  cases call with
  | read _ _ startSec off _ | write _ _ startSec off _ =>
    exact Int.add_nonneg (Int.mul_nonneg (Int.natCast_nonneg _) (by decide)) hoff
  | readAddr | writeAddr | eraseAddr => exact Int.natCast_nonneg _

theorem inRange_of_checks {start : ℕ} (hstart : call.start = start) (hoff : 0 ≤ call.off)
    (h : Checks start call.sz.toNat call.check) :
    (call.InRange ∧ ∃ addr : UInt32,(addr.toNat : Int) = call.start ∧ call.check = .ok addr) ∨
    (¬call.InRange ∧ ∃ res < 0,call.check = .error res) := by
  rcases h with ⟨hin,addr,haddr,hok⟩ | ⟨hout,herror⟩
  · have hle : start + call.sz.toNat ≤ RAMDISK_MAX_SIZE.toNat := hin
    exact Or.inl ⟨⟨hoff,by omega⟩,addr,by rw [hstart,haddr],hok⟩
  · have hgt : ¬start + call.sz.toNat ≤ RAMDISK_MAX_SIZE.toNat := hout
    refine Or.inr ⟨fun hin => hgt ?_,herror⟩
    have hle := hin.2
    omega

/-- The check of a non-empty range passes exactly when the range is inside the disk. -/
theorem check_cases (hsz : call.sz ≠ 0) :
    (call.InRange ∧ ∃ addr : UInt32,(addr.toNat : Int) = call.start ∧ call.check = .ok addr) ∨
    (¬call.InRange ∧ ∃ res < 0,call.check = .error res) := by
  cases call with
  | read disk buf startSec off sz | write disk buf startSec off sz =>
    by_cases hoff : 0 ≤ off.val
    · obtain ⟨n,hn⟩ := Int.eq_ofNat_of_zero_le hoff
      have hlt := off.property.2
      have hchecks : Checks (startSec.toNat * 512 + n) sz.toNat (secRange startSec n sz) :=
        secRange_checks hsz (by omega)
      refine inRange_of_checks (?_ : _ = ((startSec.toNat * 512 + n : ℕ) : Int)) hoff ?_
      · simp [DiskCall.start,hn]
      · rw [← hn] at hchecks
        exact hchecks
    · exact Or.inr ⟨fun h => hoff h.1,-EINVAL,by decide,secRange_neg (not_le.mp hoff)⟩
  | readAddr disk buf addr sz | writeAddr disk buf addr sz | eraseAddr disk addr sz =>
    exact inRange_of_checks rfl (le_refl 0) (addrRange_checks hsz)

/-- A call on a non-empty range is done completely, or it fails and nothing is touched. -/
theorem exec_cases (hsz : call.sz ≠ 0) :
    (∃ no,call.disk = some no ∧ call.HasPointers ∧ call.InRange ∧
      call.exec s = ⟨call.sz.toNat,(call.transferred s no call.start.toNat).1,
        (call.transferred s no call.start.toNat).2⟩) ∨
    (¬(call.HasPointers ∧ call.InRange) ∧ ∃ res < 0,call.exec s = ⟨res,call.buf,s⟩) := by
  by_cases hptr : call.HasPointers
  · obtain ⟨no,hdisk⟩ := Option.isSome_iff_exists.mp hptr.1
    have hexec := exec_pointers (s := s) hdisk hptr.2
    rw [if_neg hsz] at hexec
    rcases check_cases hsz with ⟨hin,addr,haddr,hok⟩ | ⟨hout,res,hneg,herror⟩
    · rw [hok] at hexec
      have hnat : call.start.toNat = addr.toNat := by omega
      exact Or.inl ⟨no,hdisk,hptr,hin,by rw [hexec,hnat]⟩
    · rw [herror] at hexec
      exact Or.inr ⟨fun h => hout h.2,res,hneg,hexec⟩
  · exact Or.inr ⟨fun h => hptr h.1,-EINVAL,by decide,exec_null hptr⟩

/-- A call on an empty range changes nothing. -/
theorem exec_empty (hsz : call.sz = 0) :
    (call.exec s).res ≤ 0 ∧ (call.exec s).buf = call.buf ∧ (call.exec s).disks = s := by
  by_cases hptr : call.HasPointers
  · obtain ⟨no,hdisk⟩ := Option.isSome_iff_exists.mp hptr.1
    rw [exec_pointers hdisk hptr.2,if_pos hsz]
    exact ⟨le_refl 0,rfl,rfl⟩
  · rw [exec_null hptr]
    exact ⟨show -EINVAL ≤ 0 by decide,rfl,rfl⟩

end Exec

section Histories

variable {s : Disks} {no : Fin 2}

theorem put_some (target : Fin 2) (mem : Mem) :
    s.put (some target) (some mem) no = if no = target then mem else s no :=
  Function.update_apply s target mem no

/-- What a transfer leaves on a disk is what the call stores there. -/
theorem transferred_disks {call : DiskCall} {target : Fin 2} {res : Int}
    (hdisk : call.disk = some target) (hptr : call.HasPointers) (hres : 0 < res) :
    (call.transferred s target call.start.toNat).2 no =
      (call.store no res).toList.foldl Store.apply (s no) := by
  cases call with
  | read disk buf startSec off sz | readAddr disk buf addr sz =>
    simp [transferred,store,isRead]
  | write disk buf startSec off sz | writeAddr disk buf addr sz =>
    obtain rfl : disk = some target := hdisk
    obtain ⟨mem,hmem⟩ := Option.isSome_iff_exists.mp (hptr.2.resolve_right Bool.false_ne_true)
    obtain rfl : buf = some mem := hmem
    simp only [transferred,Option.map_some,put_some]
    by_cases hno : no = target
    · simp [store,isRead,isErase,DiskCall.disk,DiskCall.buf,DiskCall.sz,hres,hno,Store.apply]
    · have hne : ¬target = no := fun h => hno h.symm
      simp [store,DiskCall.disk,hno,hne]
  | eraseAddr disk addr sz =>
    obtain rfl : disk = some target := hdisk
    simp only [transferred,put_some]
    by_cases hno : no = target
    · simp [store,isRead,isErase,DiskCall.disk,DiskCall.sz,hres,hno,Store.apply]
      rfl
    · have hne : ¬target = no := fun h => hno h.symm
      simp [store,DiskCall.disk,hno,hne]

/-- A call changes a disk by what it stores there. -/
theorem exec_disks (s : Disks) (no : Fin 2) (call : DiskCall) :
    (call.exec s).disks no =
      (call.store no (call.exec s).res).toList.foldl Store.apply (s no) := by
  have hkept : ∀ {res : Int},res ≤ 0 → call.store no res = none := by
    intro res hres
    exact if_neg fun hstore => absurd hstore.1 (not_lt.mpr hres)
  by_cases hsz : call.sz = 0
  · obtain ⟨hres,_,hdisks⟩ := exec_empty (s := s) hsz
    rw [hdisks,hkept hres]
    rfl
  · rcases exec_cases (s := s) hsz with ⟨target,hdisk,hptr,_,hexec⟩ | ⟨_,res,hneg,hexec⟩
    · have hpos : (0 : Int) < call.sz.toNat := by
        have hne : call.sz.toNat ≠ 0 := fun h => hsz (UInt32.toNat_inj.mp h)
        omega
      rw [hexec]
      exact transferred_disks hdisk hptr hpos
    · rw [hexec,hkept (le_of_lt hneg)]
      rfl

theorem runs_history (s : Disks) (calls : List DiskCall) :
    runs s calls no = (history no s calls).foldl Store.apply (s no) := by
  induction calls generalizing s with
  | nil => rfl
  | cons call calls ih =>
    rw [history,List.foldl_append,← exec_disks]
    exact ih (call.exec s).disks

end Histories

/-- The disks hold, at every address, what the last store of a history put there, or what they
were filled with. -/
structure FlatMemory (fill : Fin 2 → UInt8) (hist : Fin 2 → List Store) (s : Disks) : Prop where
  reads : ∀ call : DiskCall,call.isRead → 0 < (call.exec s).res →
    ∃ no buf,call.disk = some no ∧ (call.exec s).buf = some buf ∧
      ∀ i < call.sz.toNat,buf i =
        ((Store.last (hist no) (call.start.toNat + i)).map
          (·.byteAt (call.start.toNat + i))).getD (fill no)
  addressing : ∀ (call : DiskCall) (addr : UInt32),0 ≤ call.off → call.sz ≠ 0 →
    (addr.toNat : Int) = call.start →
    ((call.exec s).res = call.sz.toNat ↔ ((call.byAddr addr).exec s).res = call.sz.toNat) ∧
      (0 ≤ (call.exec s).res → (call.byAddr addr).exec s = call.exec s)
  accepted : ∀ call : DiskCall,call.sz ≠ 0 →
    ((call.exec s).res = call.sz.toNat ↔ call.HasPointers ∧ call.InRange)
  refused : ∀ call : DiskCall,(call.exec s).res < 0 →
    (call.exec s).buf = call.buf ∧ (call.exec s).disks = s
  empty : ∀ call : DiskCall,call.sz = 0 →
    (call.exec s).buf = call.buf ∧ (call.exec s).disks = s

section Flat

variable {s : Disks} {call : DiskCall}

theorem res_eq_sz (hsz : call.sz ≠ 0) :
    (call.exec s).res = call.sz.toNat ↔ call.HasPointers ∧ call.InRange := by
  rcases exec_cases (s := s) hsz with ⟨_,_,hptr,hin,hexec⟩ | ⟨hout,res,hneg,hexec⟩
  · rw [hexec]
    exact ⟨fun _ => ⟨hptr,hin⟩,fun _ => rfl⟩
  · rw [hexec]
    constructor
    · intro hres
      have hres' : res = call.sz.toNat := hres
      omega
    · exact fun h => absurd h hout

theorem refused_unchanged (h : (call.exec s).res < 0) :
    (call.exec s).buf = call.buf ∧ (call.exec s).disks = s := by
  by_cases hsz : call.sz = 0
  · exact (exec_empty hsz).2
  · rcases exec_cases (s := s) hsz with ⟨_,_,_,_,hexec⟩ | ⟨_,_,_,hexec⟩
    · rw [hexec] at h
      exact absurd h (not_lt.mpr (Int.natCast_nonneg _))
    · rw [hexec]
      exact ⟨rfl,rfl⟩

theorem byAddr_exec {addr : UInt32} (hoff : 0 ≤ call.off) (hsz : call.sz ≠ 0)
    (haddr : (addr.toNat : Int) = call.start) :
    ((call.exec s).res = call.sz.toNat ↔ ((call.byAddr addr).exec s).res = call.sz.toNat) ∧
      (0 ≤ (call.exec s).res → (call.byAddr addr).exec s = call.exec s) := by
  have hstart : (call.byAddr addr).start = call.start := by
    cases call <;> first | exact haddr | rfl
  have hsame : (call.byAddr addr).sz = call.sz ∧ (call.byAddr addr).disk = call.disk ∧
      (call.byAddr addr).buf = call.buf ∧ (call.byAddr addr).isErase = call.isErase := by
    cases call <;> exact ⟨rfl,rfl,rfl,rfl⟩
  have hzero : 0 ≤ (call.byAddr addr).off := by
    cases call <;> exact le_refl 0
  have htransfer : ∀ no a,(call.byAddr addr).transferred s no a = call.transferred s no a := by
    intro no a
    cases call <;> rfl
  have hptr : (call.byAddr addr).HasPointers ↔ call.HasPointers := by
    rw [HasPointers,HasPointers,hsame.2.1,hsame.2.2.1,hsame.2.2.2]
  have hin : (call.byAddr addr).InRange ↔ call.InRange := by
    rw [InRange,InRange,hsame.1,hstart]
    exact ⟨fun h => ⟨hoff,h.2⟩,fun h => ⟨hzero,h.2⟩⟩
  have hsz' : (call.byAddr addr).sz ≠ 0 := hsame.1 ▸ hsz
  have hiff := res_eq_sz (s := s) hsz'
  rw [hsame.1,hptr,hin] at hiff
  refine ⟨(res_eq_sz hsz).trans hiff.symm,?_⟩
  intro hres
  rcases exec_cases (s := s) hsz with ⟨no,hdisk,hp,hi,hexec⟩ | ⟨_,res,hneg,hexec⟩
  · rcases exec_cases (s := s) hsz' with ⟨no',hdisk',_,_,hexec'⟩ | ⟨hout,_⟩
    · obtain rfl : no' = no := by
        rw [hsame.2.1,hdisk] at hdisk'
        exact (Option.some.inj hdisk').symm
      rw [hexec,hexec',hstart,hsame.1,htransfer]
    · exact absurd ⟨hptr.mpr hp,hin.mpr hi⟩ hout
  · rw [hexec] at hres
    exact absurd hneg (not_lt.mpr hres)

/-- A read that returns bytes delivers those of its range. -/
theorem read_delivers (hread : call.isRead) (hres : 0 < (call.exec s).res) :
    ∃ no buf,call.disk = some no ∧ (call.exec s).buf = some buf ∧ call.InRange ∧
      ∀ i < call.sz.toNat,buf i = s no (call.start.toNat + i) := by
  have hsz : call.sz ≠ 0 := by
    intro hzero
    exact absurd hres (not_lt.mpr (exec_empty hzero).1)
  rcases exec_cases (s := s) hsz with ⟨no,hdisk,hptr,hin,hexec⟩ | ⟨_,res,hneg,hexec⟩
  · cases call with
    | read disk buf startSec off sz | readAddr disk buf addr sz =>
      obtain ⟨mem,hmem⟩ := Option.isSome_iff_exists.mp (hptr.2.resolve_right Bool.false_ne_true)
      obtain rfl : buf = some mem := hmem
      refine ⟨no,_,hdisk,congrArg DiskAnswer.buf hexec,hin,?_⟩
      intro i hi
      show memcpy mem 0 (s no) _ _ i = _
      conv_lhs => rw [← Nat.zero_add i]
      exact memcpy_inside hi
    | write | writeAddr | eraseAddr => exact absurd hread Bool.false_ne_true
  · rw [hexec] at hres
    exact absurd hneg (not_lt.mpr (le_of_lt hres))

end Flat

/-- After `ramdisk_init` and any sequence of calls the disks are flat memories. -/
theorem ramdisk_flat (old : Disks) (calls : List DiskCall) :
    FlatMemory initialFill (fun no => history no (ramdiskInit old).2 calls)
      (runs (ramdiskInit old).2 calls) where
  reads := by
    intro call hread hres
    obtain ⟨no,buf,hdisk,hbuf,hin,hbytes⟩ := read_delivers hread hres
    refine ⟨no,buf,hdisk,hbuf,?_⟩
    intro i hi
    rw [hbytes i hi,runs_history,Store.foldl_apply]
    have hinside : call.start.toNat + i < RAMDISK_MAX_SIZE.toNat := by
      have hle := hin.2
      have hstart := start_nonneg hin.1
      omega
    have hfill : (ramdiskInit old).2 no (call.start.toNat + i) = initialFill no := by
      show memset (old no) 0 _ _ _ = _
      conv_lhs => rw [← Nat.zero_add (call.start.toNat + i)]
      exact memset_inside hinside
    rw [hfill]
  addressing := fun _ _ hoff hsz haddr => byAddr_exec hoff hsz haddr
  accepted := fun _ hsz => res_eq_sz hsz
  refused := fun _ h => refused_unchanged h
  empty := fun _ h => (exec_empty h).2

end DiskCall

end UcVfs
