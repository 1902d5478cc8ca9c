import UcVfs.Framework.Ownership
import UcVfs.Framework.Unwinding
import UcVfs.Littlefs.Open

/-!
# The cache blocks of open littlefs files

`_open` of `littlefs_vfs.c` takes a block from `cache_pool` and records it in a local
`struct lfs_file_config`; `_close` gives back what that record holds by then. Calls may
overwrite stack that earlier calls have left.
-/

namespace UcVfs.Littlefs

open Framework

def LFS_ERR_NAMETOOLONG : Int := -36

def LFS_TYPE_REG : Nat := 0x001
def LFS_TYPE_INLINESTRUCT : Nat := 0x201

def tagType3 (tag : Int) : Nat := (tag.toNat &&& 0x7ff00000) >>> 20
def tagSize (tag : Int) : Nat := tag.toNat &&& 0x3ff

/-- `struct lfs_file_config`; a null buffer is `none`. -/
structure FileConfig (Block : Type) where
  buffer : Option Block
  attrCount : Nat
  deriving DecidableEq

/-- `cfg` and `cache.buffer` of an `lfs_file_t`. -/
structure CacheFile (Addr Block : Type) where
  cfg : Addr
  buffer : Option Block
  deriving DecidableEq

/-- What the directory code of littlefs answers while a file is opened. -/
structure DirReplies where
  forceconsistency : Int
  find : Int
  islast : Bool
  isdir : Bool
  namelen : Nat
  nameMax : Nat
  commit : Int
  get : Int
  attr : Nat → Int
  load : Int

/-- Errors are negative. -/
def DirReplies.Proper (r : DirReplies) : Prop :=
  r.forceconsistency ≤ 0 ∧ r.commit ≤ 0

instance (r : DirReplies) : Decidable r.Proper :=
  inferInstanceAs (Decidable (_ ∧ _))

variable {Addr Block : Type}

/-- From `lfs_dir_find` to the tag that describes the contents, or the error at `cleanup`. -/
def entryTag (r : DirReplies) (flags : Nat) : Except Int Int :=
  let tag := r.find
  if tag < 0 ∧ ¬(tag = LFS_ERR_NOENT ∧ r.islast) then
    .error tag
  else if tag = LFS_ERR_NOENT then
    if flags &&& LFS_O_CREAT = 0 then
      .error LFS_ERR_NOENT
    else if r.isdir then
      .error LFS_ERR_NOTDIR
    else if r.namelen > r.nameMax then
      .error LFS_ERR_NAMETOOLONG
    else
      let err := if r.commit = LFS_ERR_NOSPC then LFS_ERR_NAMETOOLONG else r.commit
      if err ≠ 0 then .error err else .ok (LFS_TYPE_INLINESTRUCT <<< 20 : Nat)
  else if flags &&& LFS_O_EXCL ≠ 0 then
    .error LFS_ERR_EXIST
  else if tagType3 tag ≠ LFS_TYPE_REG then
    .error LFS_ERR_ISDIR
  else if flags &&& LFS_O_TRUNC ≠ 0 then
    .ok (LFS_TYPE_INLINESTRUCT <<< 20 : Nat)
  else if r.get < 0 then
    .error r.get
  else
    .ok r.get

/-- The loop that fetches the attributes. -/
def fetchAttrs (r : DirReplies) (attrCount : Nat) : Option Int :=
  (List.range attrCount).findSome? fun i => if r.attr i < 0 then some (r.attr i) else none

/-- At `cleanup` the file is closed, which frees nothing without `lfs_malloc`. -/
def opencfg (r : DirReplies) (flags : Nat) (stack : Addr → FileConfig Block) (cfg : Addr)
    (file : CacheFile Addr Block) : Int × CacheFile Addr Block :=
  if flags &&& LFS_O_WRONLY = LFS_O_WRONLY ∧ r.forceconsistency ≠ 0 then
    (r.forceconsistency,file)
  else
    let file : CacheFile Addr Block := ⟨cfg,none⟩
    match entryTag r flags with
    | .error err => (err,file)
    | .ok tag =>
      match fetchAttrs r (stack file.cfg).attrCount with
      | some err => (err,file)
      | none =>
        match (stack file.cfg).buffer with
        | none => (LFS_ERR_NOMEM,file)
        | some buffer =>
          let file := { file with buffer := some buffer }
          if tagType3 tag = LFS_TYPE_INLINESTRUCT ∧ tagSize tag > 0 ∧ r.load < 0 then
            (r.load,file)
          else
            (LFS_ERR_OK,file)

/-- The checks of `lfs_file_opencfg_` pass: the directory is consistent where it has to be, and
the name is free and may be made, or is that of a regular file that can be loaded. -/
def DirReplies.Opens (r : DirReplies) (flags : Nat) : Prop :=
  (flags &&& LFS_O_WRONLY = LFS_O_WRONLY → r.forceconsistency = 0) ∧
    (r.find = LFS_ERR_NOENT ∧ r.islast ∧ flags &&& LFS_O_CREAT ≠ 0 ∧ ¬r.isdir ∧
        r.namelen ≤ r.nameMax ∧ r.commit = 0 ∨
      0 ≤ r.find ∧ flags &&& LFS_O_EXCL = 0 ∧ tagType3 r.find = LFS_TYPE_REG ∧
        (flags &&& LFS_O_TRUNC ≠ 0 ∨ 0 ≤ r.get ∧
          (tagType3 r.get = LFS_TYPE_INLINESTRUCT → 0 < tagSize r.get → 0 ≤ r.load)))

instance (r : DirReplies) (flags : Nat) : Decidable (r.Opens flags) :=
  inferInstanceAs (Decidable (_ ∧ _))

section Opencfg

variable {r : DirReplies} {flags : Nat} {stack : Addr → FileConfig Block} {cfg : Addr}
  {block : Block}

theorem fetchAttrs_zero : fetchAttrs r 0 = none := rfl

theorem entryTag_error {err : Int} (hr : r.Proper) (h : entryTag r flags = .error err) :
    err < 0 := by
  have hcommit := hr.2
  simp only [entryTag] at h
  split_ifs at h <;> cases h <;> first | decide | omega

/-- The entry was made or emptied, or its contents remain to be loaded. -/
theorem entryTag_ok {tag : Int} (h : entryTag r flags = .ok tag) :
    (r.find = LFS_ERR_NOENT ∧ r.islast ∧ flags &&& LFS_O_CREAT ≠ 0 ∧ ¬r.isdir ∧
        r.namelen ≤ r.nameMax ∧ r.commit = 0) ∧ tagSize tag = 0 ∨
      (0 ≤ r.find ∧ flags &&& LFS_O_EXCL = 0 ∧ tagType3 r.find = LFS_TYPE_REG) ∧
        (flags &&& LFS_O_TRUNC ≠ 0 ∧ tagSize tag = 0 ∨
          flags &&& LFS_O_TRUNC = 0 ∧ tag = r.get ∧ 0 ≤ r.get) := by
  have hsize : tagSize (LFS_TYPE_INLINESTRUCT <<< 20 : Nat) = 0 := by decide
  have hname : LFS_ERR_NAMETOOLONG ≠ 0 := by decide
  simp only [entryTag] at h
  split_ifs at h with hfind hentry hcreat hdir hlen hcommit hzero hexcl hreg htrunc hget <;>
    cases h
  · left
    have hlast : r.islast := by
      by_contra hlast
      exact hfind ⟨by rw [hentry]; decide,fun h => hlast h.2⟩
    exact ⟨⟨hentry,hlast,hcreat,hdir,by omega,by simpa using hzero⟩,hsize⟩
  · right
    have hpos : 0 ≤ r.find := by
      by_contra hneg
      exact hfind ⟨by omega,fun h => hentry h.1⟩
    exact ⟨⟨hpos,not_not.mp hexcl,not_not.mp hreg⟩,.inl ⟨htrunc,hsize⟩⟩
  · right
    have hpos : 0 ≤ r.find := by
      by_contra hneg
      exact hfind ⟨by omega,fun h => hentry h.1⟩
    exact ⟨⟨hpos,not_not.mp hexcl,not_not.mp hreg⟩,.inr ⟨not_not.mp htrunc,rfl,by omega⟩⟩

theorem entryTag_created (hfind : r.find = LFS_ERR_NOENT) (hlast : r.islast)
    (hcreat : flags &&& LFS_O_CREAT ≠ 0) (hdir : ¬r.isdir) (hlen : r.namelen ≤ r.nameMax)
    (hcommit : r.commit = 0) :
    entryTag r flags = .ok (LFS_TYPE_INLINESTRUCT <<< 20 : Nat) := by
  simp [entryTag,hfind,hlast,hcreat,hdir,hlen,hcommit,LFS_ERR_NOSPC]

theorem entryTag_existing (hfind : 0 ≤ r.find) (hexcl : flags &&& LFS_O_EXCL = 0)
    (hreg : tagType3 r.find = LFS_TYPE_REG) :
    entryTag r flags =
      if flags &&& LFS_O_TRUNC ≠ 0 then .ok (LFS_TYPE_INLINESTRUCT <<< 20 : Nat)
      else if r.get < 0 then .error r.get else .ok r.get := by
  have hneg : ¬r.find < 0 := by omega
  have hentry : r.find ≠ LFS_ERR_NOENT := fun h => by rw [h] at hfind; exact absurd hfind (by decide)
  simp [entryTag,hneg,hentry,hexcl,hreg]

/-- With the record of `_open` there is an error, or a file with the buffer of the record. -/
theorem opencfg_cases (file : CacheFile Addr Block) (hr : r.Proper)
    (hcfg : stack cfg = ⟨some block,0⟩) :
    (opencfg r flags stack cfg file).1 < 0 ∧ ¬r.Opens flags ∨
      opencfg r flags stack cfg file = (0,⟨cfg,some block⟩) ∧ r.Opens flags := by
  have hforce := hr.1
  simp only [opencfg,hcfg,fetchAttrs_zero]
  split_ifs with hcons
  · left
    exact ⟨by show r.forceconsistency < 0; omega,fun h => hcons.2 (h.1 hcons.1)⟩
  have hzero : flags &&& LFS_O_WRONLY = LFS_O_WRONLY → r.forceconsistency = 0 := by
    intro hw
    by_contra h
    exact hcons ⟨hw,h⟩
  cases htag : entryTag r flags with
  | error err =>
    left
    refine ⟨entryTag_error hr htag,fun h => ?_⟩
    obtain ⟨hfind,hlast,hcreat,hdir,hlen,hcommit⟩ | ⟨hfind,hexcl,hreg,hload⟩ := h.2
    · rw [entryTag_created hfind hlast hcreat hdir hlen hcommit] at htag
      cases htag
    · rw [entryTag_existing hfind hexcl hreg] at htag
      split_ifs at htag with htrunc hget
      obtain h | h := hload
      · exact htrunc h
      · omega
  | ok tag =>
    obtain ⟨hcreated,hsize⟩ | ⟨hold,⟨htrunc,hsize⟩ | ⟨htrunc,rfl,hget⟩⟩ := entryTag_ok htag
    · right
      have hload : ¬(tagType3 tag = LFS_TYPE_INLINESTRUCT ∧ tagSize tag > 0 ∧ r.load < 0) := by
        omega
      exact ⟨if_neg hload,hzero,.inl hcreated⟩
    · right
      have hload : ¬(tagType3 tag = LFS_TYPE_INLINESTRUCT ∧ tagSize tag > 0 ∧ r.load < 0) := by
        omega
      exact ⟨if_neg hload,hzero,.inr ⟨hold.1,hold.2.1,hold.2.2,.inl htrunc⟩⟩
    · dsimp only
      split_ifs with hload
      · left
        refine ⟨hload.2.2,fun h => ?_⟩
        obtain ⟨hfind,-⟩ | ⟨-,-,-,h | h⟩ := h.2
        · have hpos := hold.1
          rw [hfind] at hpos
          exact absurd hpos (by decide)
        · exact h htrunc
        · exact absurd (h.2 hload.1 hload.2.1) (by omega)
      · right
        refine ⟨rfl,hzero,.inr ⟨hold.1,hold.2.1,hold.2.2,.inr ⟨hget,fun htype hpos => ?_⟩⟩⟩
        by_contra hneg
        exact hload ⟨htype,hpos,by omega⟩

end Opencfg

/-- The pool, the stack and the files that are open. -/
structure CacheState (Addr Block : Type) where
  out : Finset Block
  stack : Addr → FileConfig Block
  files : Fin VFS_MAX_OPEN_FILES → Option (CacheFile Addr Block)

/-- What a call overwrites of the stack that others have left. -/
abbrev Reuse (Addr Block : Type) := List (Addr × FileConfig Block)

variable [DecidableEq Addr] [DecidableEq Block]

def CacheState.overwrite (s : CacheState Addr Block) (reuse : Reuse Addr Block) :
    CacheState Addr Block :=
  { s with stack := reuse.foldl (fun stack w => Function.update stack w.1 w.2) s.stack }

/-- `alloc` is what the pool answers; a file stays open when the VFS layer sees no error. -/
def cacheOpen (fd : Fin VFS_MAX_OPEN_FILES) (frame : Addr) (flags : Nat) (r : DirReplies)
    (alloc : Option Block) (file : CacheFile Addr Block) (s : CacheState Addr Block) :
    Int × CacheState Addr Block :=
  match alloc with
  | none => (-ENOMEM,s)
  | some buffer =>
    let s := { s with
      out := insert buffer s.out
      stack := Function.update s.stack frame ⟨some buffer,0⟩ }
    let (ret,fp) := opencfg r (openFlags flags) s.stack frame file
    let res := littlefsErrToErrno ret
    if res < 0 then (res,s)
    else (res,{ s with files := Function.update s.files fd (some fp) })

def cacheFree (blk : Option Block) (s : CacheState Addr Block) : CacheState Addr Block :=
  match blk with
  | none => s
  | some blk => { s with out := s.out.erase blk }

/-- `err` is the answer of `lfs_file_close`, which overwrites stack before the record is
read. -/
def cacheClose (fd : Fin VFS_MAX_OPEN_FILES) (err : Int) (during : Reuse Addr Block)
    (fp : CacheFile Addr Block) (s : CacheState Addr Block) :
    Int × Option Block × CacheState Addr Block :=
  let s := s.overwrite during
  let buffer := (s.stack fp.cfg).buffer
  let s := cacheFree buffer s
  (littlefsErrToErrno err,buffer,{ s with files := Function.update s.files fd none })

/-- The calls on littlefs files. A transfer is a read, a write, a seek or a sync. -/
inductive FileCall (Addr Block : Type)
  | open_ (fd : Fin VFS_MAX_OPEN_FILES) (frame : Addr) (flags : Nat) (r : DirReplies)
      (alloc : Option Block) (file : CacheFile Addr Block)
  | transfer (fd : Fin VFS_MAX_OPEN_FILES)
  | close (fd : Fin VFS_MAX_OPEN_FILES) (err : Int) (during : Reuse Addr Block)

/-- A call and the stack that is overwritten after it, before the next one. -/
abbrev CacheLabel (Addr Block : Type) := FileCall Addr Block × Reuse Addr Block

/-- The result, where the call has one here, and the block that it gave to the pool. -/
structure CacheAnswer (Block : Type) where
  ret : Option Int
  freed : Option Block
  deriving DecidableEq

def fileStep : FileCall Addr Block → CacheState Addr Block →
    Option (CacheAnswer Block × CacheState Addr Block)
  | .open_ fd frame flags r alloc file,s =>
    let (ret,s) := cacheOpen fd frame flags r alloc file s
    some (⟨some ret,none⟩,s)
  | .transfer _,s => some (⟨none,none⟩,s)
  | .close fd err during,s =>
    (s.files fd).map fun fp =>
      let (ret,freed,s) := cacheClose fd err during fp s
      (⟨some ret,freed⟩,s)

def cacheStep (l : CacheLabel Addr Block) (s : CacheState Addr Block) :
    Option (CacheAnswer Block × CacheState Addr Block) :=
  (fileStep l.1 s).map fun (ans,s) => (ans,s.overwrite l.2)

/-- The VFS layer opens free descriptors and uses open ones, the pool hands out blocks that it
has, and littlefs reports errors as negative numbers. -/
def FileCall.Allowed : FileCall Addr Block → CacheState Addr Block → Prop
  | .open_ fd _ _ r alloc _,s => s.files fd = none ∧ r.Proper ∧ ∀ block ∈ alloc,block ∉ s.out
  | .transfer fd,s => (s.files fd).isSome
  | .close fd _ _,s => (s.files fd).isSome

/-- None of the addresses is that of the record of a file that stays open. -/
def CacheState.Spares (s : CacheState Addr Block) (reuse : Reuse Addr Block)
    (except : Option (Fin VFS_MAX_OPEN_FILES)) : Prop :=
  ∀ fd,some fd ≠ except → ∀ file ∈ s.files fd,∀ w ∈ reuse,w.1 ≠ file.cfg

/-- What is opened passes littlefs's checks, and the stack of an `_open` whose file is still
open is not used again. -/
def FileCall.Careful : FileCall Addr Block → CacheState Addr Block → Reuse Addr Block → Prop
  | .open_ _ frame flags r alloc _,s,after =>
    s.Spares after none ∧ (alloc.isSome → r.Opens (openFlags flags) ∧
      s.Spares [(frame,⟨none,0⟩)] none ∧ ∀ w ∈ after,w.1 ≠ frame)
  | .transfer _,s,after => s.Spares after none
  | .close fd _ during,s,after => s.Spares during none ∧ s.Spares after (some fd)

/-- Every call that can be made. -/
def fileCalls : Steps (CacheState Addr Block) (CacheLabel Addr Block) (CacheAnswer Block) where
  step := cacheStep
  Meets l s := l.1.Allowed s

def carefulCalls : Steps (CacheState Addr Block) (CacheLabel Addr Block) (CacheAnswer Block) where
  step := cacheStep
  Meets l s := l.1.Allowed s ∧ l.1.Careful s l.2

def CacheState.openFiles (s : CacheState Addr Block) : Finset (Fin VFS_MAX_OPEN_FILES) :=
  Finset.univ.filter fun fd => (s.files fd).isSome

/-- Every open file has a block of its own, which its record still names, and no other block
is out. -/
structure CacheState.Conserved (s : CacheState Addr Block) : Prop where
  count : s.out.card = s.openFiles.card
  own : ∀ fd,∀ file ∈ s.files fd,∃ block ∈ s.out,file.buffer = some block ∧
    s.stack file.cfg = ⟨some block,0⟩
  apart : ∀ fd fd',∀ file ∈ s.files fd,∀ file' ∈ s.files fd',
    file.buffer = file'.buffer → fd = fd'

/-- The block that the open of a descriptor took, while it is open. -/
def takenStep (taken : Fin VFS_MAX_OPEN_FILES → Option Block)
    (e : CacheLabel Addr Block × CacheAnswer Block) : Fin VFS_MAX_OPEN_FILES → Option Block :=
  match e.1.1,e.2.ret with
  | .open_ fd _ _ _ alloc _,some ret =>
    if ret < 0 then taken else Function.update taken fd alloc
  | .close fd _ _,_ => Function.update taken fd none
  | _,_ => taken

def takenBlocks (log : List (CacheLabel Addr Block × CacheAnswer Block)) :
    Fin VFS_MAX_OPEN_FILES → Option Block :=
  log.foldl takenStep fun _ => none

section Blocks

variable {s s' : CacheState Addr Block} {taken : Fin VFS_MAX_OPEN_FILES → Option Block}

/-- The blocks out are those taken for the open files, whose records name them. -/
structure Blocks (taken : Fin VFS_MAX_OPEN_FILES → Option Block) (s : CacheState Addr Block) :
    Prop where
  owns : Owns taken s.out
  closed : ∀ fd,s.files fd = none → taken fd = none
  open_ : ∀ fd,∀ file ∈ s.files fd,∃ block,taken fd = some block ∧ file.buffer = some block ∧
    s.stack file.cfg = ⟨some block,0⟩

omit [DecidableEq Block] in
theorem overwrite_stack {a : Addr} {reuse : Reuse Addr Block} (h : ∀ w ∈ reuse,w.1 ≠ a) :
    (s.overwrite reuse).stack a = s.stack a := by
  show reuse.foldl (fun stack w => Function.update stack w.1 w.2) s.stack a = s.stack a
  generalize s.stack = stack
  induction reuse generalizing stack with
  | nil => rfl
  | cons w reuse ih =>
    rw [List.foldl_cons,ih fun w' hw => h w' (List.mem_cons_of_mem w hw)]
    exact Function.update_of_ne (h w List.mem_cons_self).symm w.2 stack

omit [DecidableEq Block] in
theorem Blocks.overwrite (h : Blocks taken s) {reuse : Reuse Addr Block}
    (hspares : s.Spares reuse none) : Blocks taken (s.overwrite reuse) where
  owns := h.owns
  closed := h.closed
  open_ := by
    intro fd file hfile
    obtain ⟨block,htaken,hbuffer,hrecord⟩ := h.open_ fd file hfile
    refine ⟨block,htaken,hbuffer,?_⟩
    rw [overwrite_stack (hspares fd (by simp) file hfile),hrecord]

omit [DecidableEq Addr] [DecidableEq Block] in
theorem Blocks.taken_iff (h : Blocks taken s) (fd : Fin VFS_MAX_OPEN_FILES) :
    (taken fd).isSome ↔ (s.files fd).isSome := by
  cases hfd : s.files fd with
  | none => simp [h.closed fd hfd]
  | some file =>
    obtain ⟨block,htaken,-⟩ := h.open_ fd file hfd
    simp [htaken]

omit [DecidableEq Addr] in
theorem Blocks.conserved (h : Blocks taken s) : s.Conserved where
  count := by
    rw [h.owns.card]
    exact congrArg Finset.card (Finset.filter_congr fun fd _ => h.taken_iff fd)
  own := by
    intro fd file hfile
    obtain ⟨block,htaken,hbuffer,hrecord⟩ := h.open_ fd file hfile
    exact ⟨block,(h.owns.out block).mpr ⟨fd,htaken⟩,hbuffer,hrecord⟩
  apart := by
    intro fd fd' file hfile file' hfile' heq
    obtain ⟨block,htaken,hbuffer,-⟩ := h.open_ fd file hfile
    obtain ⟨block',htaken',hbuffer',-⟩ := h.open_ fd' file' hfile'
    obtain rfl : block = block' := Option.some.inj (by rw [← hbuffer,← hbuffer',heq])
    exact h.owns.once fd fd' block htaken htaken'

/-- An open that takes a block puts it into its file and its record. -/
theorem Blocks.opened (h : Blocks taken s) {fd : Fin VFS_MAX_OPEN_FILES} {frame : Addr}
    {block : Block} (hfd : s.files fd = none) (hblock : block ∉ s.out)
    (hframe : ∀ fd,∀ file ∈ s.files fd,frame ≠ file.cfg) :
    Blocks (Function.update taken fd (some block))
      ⟨insert block s.out,Function.update s.stack frame ⟨some block,0⟩,
        Function.update s.files fd (some ⟨frame,some block⟩)⟩ where
  owns := h.owns.take (h.closed fd hfd) hblock
  closed := by
    intro fd' hfd'
    dsimp only at hfd'
    by_cases heq : fd' = fd
    · rw [heq,Function.update_self] at hfd'
      cases hfd'
    · rw [Function.update_of_ne heq] at hfd' ⊢
      exact h.closed fd' hfd'
  open_ := by
    intro fd' file hfile
    dsimp only at hfile
    by_cases heq : fd' = fd
    · rw [heq,Function.update_self] at hfile
      obtain rfl := Option.mem_some_iff.mp hfile
      exact ⟨block,heq ▸ Function.update_self ..,rfl,Function.update_self ..⟩
    · rw [Function.update_of_ne heq] at hfile ⊢
      obtain ⟨block',htaken,hbuffer,hrecord⟩ := h.open_ fd' file hfile
      exact ⟨block',htaken,hbuffer,
        (Function.update_of_ne (hframe fd' file hfile).symm ..).trans hrecord⟩

omit [DecidableEq Addr] in
theorem Blocks.closes (h : Blocks taken s) {fd : Fin VFS_MAX_OPEN_FILES} {block : Block}
    (hfd : taken fd = some block) :
    Blocks (Function.update taken fd none)
      { s with out := s.out.erase block, files := Function.update s.files fd none } where
  owns := h.owns.give hfd
  closed := by
    intro fd' hfd'
    dsimp only at hfd'
    by_cases heq : fd' = fd
    · rw [heq,Function.update_self]
    · rw [Function.update_of_ne heq] at hfd' ⊢
      exact h.closed fd' hfd'
  open_ := by
    intro fd' file hfile
    dsimp only at hfile
    by_cases heq : fd' = fd
    · rw [heq,Function.update_self] at hfile
      cases hfile
    · rw [Function.update_of_ne heq] at hfile ⊢
      exact h.open_ fd' file hfile

theorem cacheOpen_opens {fd : Fin VFS_MAX_OPEN_FILES} {frame : Addr} {flags : Nat}
    {r : DirReplies} {block : Block} {file : CacheFile Addr Block} (hr : r.Proper)
    (hopens : r.Opens (openFlags flags)) :
    cacheOpen fd frame flags r (some block) file s =
      (0,⟨insert block s.out,Function.update s.stack frame ⟨some block,0⟩,
        Function.update s.files fd (some ⟨frame,some block⟩)⟩) := by
  have hcfg : Function.update s.stack frame (⟨some block,0⟩ : FileConfig Block) frame =
      ⟨some block,0⟩ := Function.update_self ..
  obtain ⟨-,hno⟩ | ⟨hopen,-⟩ := opencfg_cases file hr hcfg
  · exact absurd hopens hno
  · simp only [cacheOpen,hopen]
    rfl

/-- Only a close gives a block to the pool, and then that of its own file. -/
theorem Blocks.step (h : Blocks taken s) {l : CacheLabel Addr Block} {ans : CacheAnswer Block}
    (hmeets : carefulCalls.Meets l s) (hstep : carefulCalls.step l s = some (ans,s')) :
    Blocks (takenStep taken (l,ans)) s' ∧
      ∀ fd err during,l.1 = .close fd err during → ans.freed = taken fd := by
  obtain ⟨call,after⟩ := l
  obtain ⟨hallowed,hcareful⟩ := hmeets
  obtain ⟨⟨ans',s₁⟩,hcall,hafter⟩ := Option.map_eq_some_iff.mp hstep
  obtain ⟨rfl,rfl⟩ := Prod.mk.inj hafter
  cases call with
  | open_ fd frame flags r alloc file =>
    refine ⟨?_,fun _ _ _ hclose => by cases hclose⟩
    cases alloc with
    | none =>
      cases hcall
      exact h.overwrite hcareful.1
    | some block =>
      obtain ⟨hspares,hopens⟩ := hcareful
      obtain ⟨hopens,hframe,hkept⟩ := hopens rfl
      simp only [fileStep,cacheOpen_opens hallowed.2.1 hopens] at hcall
      cases hcall
      have hopened := h.opened hallowed.1 (hallowed.2.2 block rfl)
        fun fd file hfile => hframe fd (by simp) file hfile _ List.mem_cons_self
      refine hopened.overwrite fun fd' _ file' hfile w hw => ?_
      dsimp only at hfile
      by_cases heq : fd' = fd
      · rw [heq,Function.update_self] at hfile
        obtain rfl := Option.mem_some_iff.mp hfile
        exact hkept w hw
      · rw [Function.update_of_ne heq] at hfile
        exact hspares fd' (by simp) file' hfile w hw
  | transfer fd =>
    cases hcall
    exact ⟨h.overwrite hcareful,fun _ _ _ hclose => by cases hclose⟩
  | close fd err during =>
    obtain ⟨fp,hfp⟩ := Option.isSome_iff_exists.mp hallowed
    obtain ⟨block,htaken,-,hrecord⟩ := h.open_ fd fp hfp
    have hread : ((s.overwrite during).stack fp.cfg).buffer = some block := by
      rw [overwrite_stack (hcareful.1 fd (by simp) fp hfp),hrecord]
    simp only [fileStep,hfp,Option.map_some,cacheClose,hread,cacheFree] at hcall
    cases hcall
    refine ⟨?_,fun fd' _ _ hclose => ?_⟩
    · refine ((h.overwrite hcareful.1).closes htaken).overwrite fun fd' _ file hfile w hw => ?_
      dsimp only at hfile
      by_cases heq : fd' = fd
      · rw [heq,Function.update_self] at hfile
        cases hfile
      · rw [Function.update_of_ne heq] at hfile
        exact hcareful.2 fd' (by simpa using heq) file hfile w hw
    · cases hclose
      exact htaken.symm

/-- Nothing is open, and the stack holds anything. -/
def CacheState.closed (stack : Addr → FileConfig Block) : CacheState Addr Block :=
  ⟨∅,stack,fun _ => none⟩

theorem run_blocks {stack : Addr → FileConfig Block}
    {log : List (CacheLabel Addr Block × CacheAnswer Block)}
    (h : carefulCalls.Run (CacheState.closed stack) log s) : Blocks (takenBlocks log) s := by
  induction h with
  | start => exact ⟨Owns.empty,fun _ _ => rfl,fun _ _ hfile => by cases hfile⟩
  | @next log s l ans s' _ hmeets hstep ih =>
    rw [takenBlocks,List.foldl_append]
    exact (ih.step hmeets hstep).1

/-- In every run of careful calls the blocks that are out are those of the open files, one for
each, and what a close gave back is what the open of its file had taken. -/
theorem cache_blocks_conserved {stack : Addr → FileConfig Block}
    {log : List (CacheLabel Addr Block × CacheAnswer Block)}
    (h : carefulCalls.Run (CacheState.closed stack) log s) :
    s.Conserved ∧ (∀ fd,∀ file ∈ s.files fd,file.buffer = takenBlocks log fd) ∧
      ∀ past rest fd err during after ans,
        log = past ++ ((.close fd err during,after),ans) :: rest →
          ans.freed = takenBlocks past fd ∧ ans.freed.isSome := by
  have hblocks := run_blocks h
  refine ⟨hblocks.conserved,fun fd file hfile => ?_,?_⟩
  · obtain ⟨block,htaken,hbuffer,-⟩ := hblocks.open_ fd file hfile
    rw [htaken,hbuffer]
  · intro past rest fd err during after ans hlog
    subst hlog
    obtain ⟨s₁,s₂,hpast,hmeets,hstep⟩ := h.split
    have hfreed := ((run_blocks hpast).step hmeets hstep).2 fd err during rfl
    refine ⟨hfreed,?_⟩
    rw [hfreed,(run_blocks hpast).taken_iff]
    exact hmeets.1

end Blocks

section Demo

instance (call : FileCall Addr Block) (s : CacheState Addr Block) : Decidable (call.Allowed s) :=
  match call with
  | .open_ .. => inferInstanceAs (Decidable (_ ∧ _ ∧ _))
  | .transfer _ => inferInstanceAs (Decidable (_ = true))
  | .close .. => inferInstanceAs (Decidable (_ = true))

instance (s : CacheState Addr Block) (reuse : Reuse Addr Block)
    (except : Option (Fin VFS_MAX_OPEN_FILES)) : Decidable (s.Spares reuse except) :=
  inferInstanceAs (Decidable (∀ _,_ → _))

instance (call : FileCall Addr Block) (s : CacheState Addr Block) (after : Reuse Addr Block) :
    Decidable (call.Careful s after) :=
  match call with
  | .open_ .. => inferInstanceAs (Decidable (_ ∧ (_ → _)))
  | .transfer _ => inferInstanceAs (Decidable (CacheState.Spares ..))
  | .close .. => inferInstanceAs (Decidable (_ ∧ _))

instance (l : CacheLabel Addr Block) (s : CacheState Addr Block) :
    Decidable (carefulCalls.Meets l s) :=
  inferInstanceAs (Decidable (_ ∧ _))

instance (l : CacheLabel Addr Block) (s : CacheState Addr Block) :
    Decidable (fileCalls.Meets l s) :=
  inferInstanceAs (Decidable (FileCall.Allowed ..))

def blank : CacheState Nat Nat := CacheState.closed fun _ => ⟨none,0⟩

/-- What there is when `lfs_dir_find` finds the tag, or reports the error. -/
def found (tag : Int) : DirReplies := ⟨0,tag,true,false,1,255,0,0x20200008,fun _ => 0,0⟩

def fileA : Fin VFS_MAX_OPEN_FILES := ⟨0,by decide⟩
def fileB : Fin VFS_MAX_OPEN_FILES := ⟨1,by decide⟩

/-- An open with `O_RDONLY` in a frame, with a block from the pool. -/
def openIn (fd : Fin VFS_MAX_OPEN_FILES) (frame : Nat) (tag : Int) (block : Nat) :
    CacheLabel Nat Nat :=
  (.open_ fd frame O_RDONLY (found tag) (some block) ⟨0,none⟩,[])

/-- Two files are opened and the first one is closed. -/
def twoFiles : List (CacheLabel Nat Nat × CacheAnswer Nat) :=
  [(openIn fileA 40 0x00100000 7,⟨some 0,none⟩),(openIn fileB 60 0x00100000 8,⟨some 0,none⟩),
    ((.transfer fileA,[(50,⟨none,3⟩)]),⟨none,none⟩),
    ((.close fileA 0 [(50,⟨none,4⟩)],[(40,⟨none,5⟩)]),⟨some 0,some 7⟩)]

theorem cache_blocks_conserved_twoFiles :
    ∃ s,carefulCalls.Run blank twoFiles s ∧ s.Conserved := by
  obtain ⟨s,hrun⟩ := Steps.exists_run.mpr (show
    (carefulCalls.follow (twoFiles.map Prod.fst) blank).map Prod.fst =
      some (twoFiles.map Prod.snd) by decide)
  exact ⟨s,hrun,(cache_blocks_conserved hrun).1⟩

/-- A name that is not there costs a block, and of two files whose opens ran in the same frame
the first one gives back the block of the second. -/
theorem cache_block_lost :
    (∃ s,fileCalls.Run blank [(openIn fileA 40 LFS_ERR_NOENT 7,⟨some (-ENOENT),none⟩)] s ∧
      s.out.card = 1 ∧ s.openFiles.card = 0) ∧
    ∃ s,fileCalls.Run blank [(openIn fileA 40 0x00100000 7,⟨some 0,none⟩),
      (openIn fileB 40 0x00100000 8,⟨some 0,none⟩),
      ((.close fileA 0 [],[]),⟨some 0,some 8⟩)] s ∧ ¬s.Conserved := by
  constructor
  · refine ⟨_,Steps.Run.start.next (by decide) rfl,?_,?_⟩
    · decide
    · decide
  · refine ⟨_,((Steps.Run.start.next (by decide) rfl).next (by decide) rfl).next (by decide) rfl,
      fun h => ?_⟩
    obtain ⟨block,hout,hbuffer,-⟩ := h.own fileB ⟨40,some 8⟩ (by decide)
    cases hbuffer
    exact absurd hout (by decide)

end Demo

end UcVfs.Littlefs
