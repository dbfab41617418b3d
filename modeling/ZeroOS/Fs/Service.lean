import ZeroOS.Fs.Crash
import ZeroOS.Fs.Names

/-!
# The filesystem service

The service takes requests, one at a time, and each of them is at most one operation of the volume
(`handle_spec`). Some handlers look at the parent of a path first, and some do not.

The paths with two dots inside of a name are those that `canonical_path` lets pass and the decoder does
not.
-/

namespace ZeroOS.Fs

open Disk Joined List Transition Volume Wire

variable {G : Geometry} {crc : Bytes → UInt32} {sha : Bytes → Digest} {options : MountOptions} {fault : Option Nat}
  {sb : SuperBlock}

inductive Status
  | ok
  | invalid
  | notFound
  | device
  | noDescriptor
  deriving DecidableEq, Repr

def mapError : ZfsError → Status
  | .notFound | .snapshotNotFound => .notFound
  | .device => .device
  | _ => .invalid

structure OpenFile where
  id : UInt32
  path : Path
  offset : Nat

/-- The volume, the table of open files and the next descriptor. -/
structure Service where
  sys : System
  openFiles : List (Option OpenFile)
  nextDescriptor : UInt32

/-- The requests, after their payload has been taken apart. -/
inductive Request
  | open (raw : Path)
  | vtOpen (raw : Path) (create : Bool)
  | vtWrite (fd : UInt32) (bytes : Bytes)
  /-- `read_file_at` has given so many bytes. -/
  | read (id : UInt32) (count : Nat)
  | close (id : UInt32)
  | mkdir (raw : Path)
  | rmdir (raw : Path)
  | delete (raw : Path)
  | rename (oldRaw newRaw : Path)
  | write (raw : Path) (data : Slice)
  /-- The shared buffer, if it could be mapped. -/
  | writeShared (raw : Path) (view : Option Slice)
  | installBundle (raw : Path) (data : Slice) (signature : Bytes)

def Volume.fileSize (v : Volume) (path : Path) : Except ZfsError Nat :=
  match v.directory.get path with
  | none => .error .notFound
  | some entry => if entry.kind ≠ .file then .error .unsupported else .ok entry.size

def Volume.hasParent (v : Volume) (path : Path) : Bool :=
  decide (parentPath path = ['/']) || (v.directory.get (parentPath path)).any fun entry => decide (entry.kind = .directory)

namespace Service

def start (sys : System) : Service := ⟨sys, replicate 16 none, 1⟩

variable (s : Service)

def allocateHandle (path : Path) : Option Service :=
  match s.openFiles.findIdx? (·.isNone) with
  | none => none
  | some i =>
    some { s with
      openFiles := s.openFiles.set i (some ⟨s.nextDescriptor, path, 0⟩)
      nextDescriptor := s.nextDescriptor + 1 }

def fileOf (fd : UInt32) : Option OpenFile := (s.openFiles.filterMap id).find? (·.id == fd)

/-- The file with a descriptor is at another place now. -/
def setOffset (fd : UInt32) (offset : Nat) : Service :=
  match s.openFiles.findIdx? fun slot => slot.any (·.id == fd) with
  | none => s
  | some i => { s with openFiles := s.openFiles.modify i (Option.map fun file => { file with offset := offset }) }

/-- A descriptor for the file, or `status`. -/
def openHandle (path : Path) (status : Status) : Status × Service :=
  match s.allocateHandle path with
  | some t => (.ok, t)
  | none => (status, s)

variable (G crc sha) (fault : Option Nat)

def run (op : Op) : Except ZfsError Unit × Service :=
  ((s.sys.vol.exec G crc sha op fault).result, { s with sys := s.sys.after G crc sha op fault })

def reply (op : Op) : Status × Service :=
  match s.run G crc sha fault op with
  | (.ok (), t) => (.ok, t)
  | (.error e, t) => (mapError e, t)

def handleOpen (path : Path) : Status × Service :=
  match s.sys.vol.fileSize path with
  | .ok _ => s.openHandle path .invalid
  | .error e => (mapError e, s)

def handleVtOpen (path : Path) (create : Bool) : Status × Service :=
  match s.sys.vol.fileSize path with
  | .ok _ => s.openHandle path .noDescriptor
  | .error e =>
    if e = .notFound ∧ create = true then
      if s.sys.vol.hasParent path then
        match s.run G crc sha fault (.writeFile path ⟨[], by decide⟩ none) with
        | (.ok (), t) => t.openHandle path .noDescriptor
        | (.error e, t) => (mapError e, t)
      else (.notFound, s)
    else (mapError e, s)

/-- What `handle_vt_write` writes back: the file, filled up with zeros to where the bytes go. -/
def patch (data bytes : Bytes) (offset : Nat) : Bytes :=
  let long := data ++ replicate (offset + bytes.length - data.length) 0
  long.take offset ++ bytes ++ long.drop (offset + bytes.length)

/-- `handle_vt_write`. A file that would be longer than any object in memory ends the service. -/
def handleVtWrite (fd : UInt32) (bytes : Bytes) : Option (Status × Service) :=
  if bytes.length = 0 ∨ 120 < bytes.length then some (.invalid, s)
  else
    match s.fileOf fd with
    | none => some (.noDescriptor, s)
    | some file =>
      if 2 ^ 64 ≤ file.offset + bytes.length then some (.invalid, s)
      else
        match s.sys.readFile G file.path with
        | .error e => some (mapError e, s)
        | .ok data =>
          if hlen : (patch data bytes file.offset).length < 2 ^ 63 then
            match s.run G crc sha fault (.writeFile file.path ⟨patch data bytes file.offset, hlen⟩ none) with
            | (.ok (), t) => some (.ok, t.setOffset fd (file.offset + bytes.length))
            | (.error e, t) => some (mapError e, t)
          else none

def handleClose (id : UInt32) : Status × Service :=
  match s.openFiles.findIdx? fun slot => slot.any (·.id == id) with
  | none => (.noDescriptor, s)
  | some i => (.ok, { s with openFiles := s.openFiles.set i none })

def handleRead (id : UInt32) (count : Nat) : Status × Service :=
  match s.fileOf id with
  | none => (.noDescriptor, s)
  | some file => (.ok, s.setOffset id (file.offset + count))

def handleMkdir (path : Path) : Status × Service :=
  if s.sys.vol.hasParent path then s.reply G crc sha fault (.createDir path) else (.notFound, s)

def handleRename (old new : Path) : Status × Service :=
  if s.sys.vol.hasParent new then
    match s.run G crc sha fault (.renamePath old new) with
    | (.ok (), t) =>
      (.ok, { t with
        openFiles := t.openFiles.map
          (Option.map fun file => if file.path = old then { file with path := new } else file) })
    | (.error e, t) => (mapError e, t)
  else (.notFound, s)

/-- A handler for a path that `canonical_path` accepts. -/
def withPath (raw : Path) (handler : Path → Status × Service) : Status × Service :=
  match canonicalPath raw with
  | none => (.invalid, s)
  | some path => handler path

/-- `handle_request`. -/
def handle : Request → Option (Status × Service)
  | .open raw => some (s.withPath raw s.handleOpen)
  | .vtOpen raw create => some (s.withPath raw fun path => s.handleVtOpen G crc sha fault path create)
  | .vtWrite fd bytes => s.handleVtWrite G crc sha fault fd bytes
  | .read id count => some (s.handleRead id count)
  | .close id => some (s.handleClose id)
  | .mkdir raw => some (s.withPath raw (s.handleMkdir G crc sha fault))
  | .rmdir raw => some (s.withPath raw fun path => s.reply G crc sha fault (.removeDir path))
  | .delete raw => some (s.withPath raw fun path => s.reply G crc sha fault (.removeFile path))
  | .rename oldRaw newRaw =>
    some (s.withPath oldRaw fun old => s.withPath newRaw fun new => s.handleRename G crc sha fault old new)
  | .write raw data => some (s.withPath raw fun path => s.reply G crc sha fault (.writeFile path data none))
  | .writeShared raw view =>
    some (s.withPath raw fun path =>
      match view with
      | some data => s.reply G crc sha fault (.writeFile path data none)
      | none => (.invalid, s))
  | .installBundle raw data signature =>
    some (s.withPath raw fun path => s.reply G crc sha fault (.writeFile path data (some signature)))

end Service

/-- The operation that a request stands for, with what the handler has checked. -/
inductive Issues (v : Volume) : Request → Op → Prop
  | create {raw path : Path} {data : Slice} : canonicalPath raw = some path → v.directory.get path = none →
      v.hasParent path = true → Issues v (.vtOpen raw true) (.writeFile path data none)
  | append {fd : UInt32} {bytes : Bytes} {path : Path} {data : Slice} {entry : DirectoryEntry} :
      v.directory.get path = some entry → entry.kind = .file →
      Issues v (.vtWrite fd bytes) (.writeFile path data none)
  | mkdir {raw path : Path} : canonicalPath raw = some path → v.hasParent path = true → Issues v (.mkdir raw) (.createDir path)
  | rmdir {raw path : Path} : canonicalPath raw = some path → Issues v (.rmdir raw) (.removeDir path)
  | delete {raw path : Path} : canonicalPath raw = some path → Issues v (.delete raw) (.removeFile path)
  | rename {oldRaw newRaw old new : Path} : canonicalPath oldRaw = some old → canonicalPath newRaw = some new →
      v.hasParent new = true → Issues v (.rename oldRaw newRaw) (.renamePath old new)
  | write {raw path : Path} {data : Slice} : canonicalPath raw = some path →
      Issues v (.write raw data) (.writeFile path data none)
  | writeShared {raw path : Path} {data : Slice} : canonicalPath raw = some path →
      Issues v (.writeShared raw (some data)) (.writeFile path data none)
  | install {raw path : Path} {data : Slice} {signature : Bytes} : canonicalPath raw = some path →
      Issues v (.installBundle raw data signature) (.writeFile path data (some signature))

namespace Service

variable {s t : Service} {status : Status} {fault : Option Nat} {path : Path}

/-- What a request may do to the volume: nothing, or the operation it stands for. -/
def Touches (G : Geometry) (crc : Bytes → UInt32) (sha : Bytes → Digest) (s : Service) (req : Request)
    (fault : Option Nat) (status : Status) (t : Service) : Prop :=
  t.sys = s.sys ∨ ∃ op, Issues s.sys.vol req op ∧ t.sys = s.sys.after G crc sha op fault ∧
    (status = .ok → (s.sys.vol.exec G crc sha op fault).result = .ok ())

lemma mapError_ne_ok (e : ZfsError) : mapError e ≠ .ok := by
  cases e <;> simp [mapError]

lemma sys_openHandle : (s.openHandle path status).2.sys = s.sys := by
  unfold openHandle allocateHandle
  split
  next t ht =>
    split at ht
    · cases ht
    · cases ht
      rfl
  · rfl

lemma sys_setOffset : (s.setOffset fd offset).sys = s.sys := by
  unfold setOffset
  split <;> rfl

variable {req : Request}

lemma touches_reply (h : Issues s.sys.vol req op) :
    Touches G crc sha s req fault (s.reply G crc sha fault op).1 (s.reply G crc sha fault op).2 := by
  refine .inr ⟨op, h, ?_, ?_⟩
  · unfold reply run
    split
    next heq => exact congrArg Service.sys (Prod.mk.inj heq).2.symm
    next heq => exact congrArg Service.sys (Prod.mk.inj heq).2.symm
  · unfold reply run
    split
    next heq =>
      intro _
      exact (Prod.mk.inj heq).1
    next e _ _ =>
      intro ho
      exact absurd ho (mapError_ne_ok e)

lemma touches_withPath (h : ∀ path, canonicalPath raw = some path → Touches G crc sha s req fault (ha path).1 (ha path).2) :
    Touches G crc sha s req fault (s.withPath raw ha).1 (s.withPath raw ha).2 := by
  unfold withPath
  split
  · exact .inl rfl
  next path hp => exact h path hp

lemma touches_vtOpen (create : Bool) (ht : canonicalPath raw = some path) :
    Touches G crc sha s (.vtOpen raw create) fault (s.handleVtOpen G crc sha fault path create).1
      (s.handleVtOpen G crc sha fault path create).2 := by
  unfold handleVtOpen
  split
  · exact .inl sys_openHandle
  next e hs =>
    split
    next hc =>
      obtain ⟨rfl, rfl⟩ := hc
      split
      next hp =>
        have hn : s.sys.vol.directory.get path = none := by
          unfold fileSize at hs
          split at hs
          next hg => exact hg
          · split at hs <;> cases hs
        have hiss : Issues s.sys.vol (.vtOpen raw true) (.writeFile path ⟨[], by decide⟩ none) := .create ht hn hp
        unfold run
        split
        next t heq =>
          obtain ⟨ho, rfl⟩ := Prod.mk.inj heq
          exact .inr ⟨_, hiss, sys_openHandle, fun _ => ho⟩
        next e t heq =>
          obtain ⟨-, rfl⟩ := Prod.mk.inj heq
          exact .inr ⟨_, hiss, rfl, fun ho => absurd ho (mapError_ne_ok e)⟩
      · exact .inl rfl
    · exact .inl rfl

lemma readFile_eq_ok {v : Volume} (h : v.readFile G d path = .ok data) :
    ∃ entry, v.directory.get path = some entry ∧ entry.kind = .file := by
  unfold readFile at h
  split at h
  · cases h
  next entry hg =>
    split at h
    · cases h
    next hk => exact ⟨entry, hg, not_not.mp hk⟩

lemma touches_vtWrite (h : s.handleVtWrite G crc sha fault fd bytes = some (status, t)) :
    Touches G crc sha s (.vtWrite fd bytes) fault status t := by
  unfold handleVtWrite at h
  split at h
  · cases h
    exact .inl rfl
  split at h
  · cases h
    exact .inl rfl
  split at h
  · cases h
    exact .inl rfl
  split at h
  · cases h
    exact .inl rfl
  next file _ _ data hr =>
    obtain ⟨entry, hg, hk⟩ := readFile_eq_ok hr
    split at h
    next hl =>
      unfold run at h
      split at h
      next t' heq =>
        obtain ⟨ho, rfl⟩ := Prod.mk.inj heq
        cases h
        exact .inr ⟨_, .append hg hk, sys_setOffset, fun _ => ho⟩
      next e t' heq =>
        obtain ⟨-, rfl⟩ := Prod.mk.inj heq
        cases h
        exact .inr ⟨_, .append hg hk, rfl, fun ho => absurd ho (mapError_ne_ok e)⟩
    · cases h

lemma touches_rename (hl : canonicalPath oldRaw = some old) (hn : canonicalPath newRaw = some new) :
    Touches G crc sha s (.rename oldRaw newRaw) fault (s.handleRename G crc sha fault old new).1
      (s.handleRename G crc sha fault old new).2 := by
  unfold handleRename
  split
  next hp =>
    have hs : Issues s.sys.vol (.rename oldRaw newRaw) (.renamePath old new) := .rename hl hn hp
    unfold run
    split
    next t heq =>
      obtain ⟨ho, rfl⟩ := Prod.mk.inj heq
      exact .inr ⟨_, hs, rfl, fun _ => ho⟩
    next e t heq =>
      obtain ⟨-, rfl⟩ := Prod.mk.inj heq
      exact .inr ⟨_, hs, rfl, fun ho => absurd ho (mapError_ne_ok e)⟩
  · exact .inl rfl

/-- A request is at most one operation of the volume. -/
lemma handle_spec (h : s.handle G crc sha fault req = some (status, t)) :
    Touches G crc sha s req fault status t := by
  -- what the handlers that do not end the service return
  have hr : ∀ {x : Status × Service}, Touches G crc sha s req fault x.1 x.2 → some x = some (status, t) →
      Touches G crc sha s req fault status t := by
    intro x hx heq
    cases heq
    exact hx
  cases req with
  | «open» raw =>
    refine hr (touches_withPath fun path _ => .inl ?_) h
    unfold handleOpen
    split
    · exact sys_openHandle
    · rfl
  | vtOpen raw create => exact hr (touches_withPath fun path hp => touches_vtOpen create hp) h
  | vtWrite fd bytes => exact touches_vtWrite h
  | read id count =>
    refine hr (.inl ?_) h
    unfold handleRead
    split
    · rfl
    · exact sys_setOffset
  | close id =>
    refine hr (.inl ?_) h
    unfold handleClose
    split <;> rfl
  | mkdir raw =>
    refine hr (touches_withPath fun path hp => ?_) h
    unfold handleMkdir
    split
    next hpa => exact touches_reply (.mkdir hp hpa)
    · exact .inl rfl
  | rmdir raw => exact hr (touches_withPath fun path hp => touches_reply (.rmdir hp)) h
  | delete raw => exact hr (touches_withPath fun path hp => touches_reply (.delete hp)) h
  | rename oldRaw newRaw =>
    exact hr (touches_withPath fun old ho => touches_withPath fun new hn => touches_rename ho hn) h
  | write raw data => exact hr (touches_withPath fun path hp => touches_reply (.write hp)) h
  | writeShared raw view =>
    refine hr (touches_withPath fun path hp => ?_) h
    cases view with
    | none => exact .inl rfl
    | some data => exact touches_reply (.writeShared hp)
  | installBundle raw data signature => exact hr (touches_withPath fun path hp => touches_reply (.install hp)) h

end Service

/-! ## Runs -/

/-- What the service goes through: requests, with the number of writes the device takes and the answer, and
restarts. -/
inductive Call
  | request (req : Request) (fault : Option Nat) (status : Status)
  | restart (options : MountOptions)

def Service.next (G : Geometry) (crc : Bytes → UInt32) (sha : Bytes → Digest) (s : Service) :
    Call → Option Service
  | .request req fault status =>
    match s.handle G crc sha fault req with
    | some (status', t) => if status' = status then some t else none
    | none => none
  | .restart options => (System.boot G crc s.sys.disk options).map Service.start

def Service.Step (G : Geometry) (crc : Bytes → UInt32) (sha : Bytes → Digest) (s : Service) (c : Call)
    (t : Service) : Prop := s.next G crc sha c = some t

variable {s : Service}

lemma Service.step_request
    (h : s.Step G crc sha (.request req fault status) t) : s.handle G crc sha fault req = some (status, t) := by
  simp only [Service.Step, Service.next] at h
  split at h
  next status' t' heq =>
    split at h
    next hs =>
      cases h
      rw [heq, hs]
    · cases h
  · cases h

/-! ## Paths without two dots -/

/-- The path that a request may make a new file at has no two dots in a row. -/
def Request.Clean : Request → Prop
  | .vtOpen raw true => ∀ path, canonicalPath raw = some path → hasDotDot path = false
  | .write raw _ => ∀ path, canonicalPath raw = some path → hasDotDot path = false
  | .writeShared raw _ => ∀ path, canonicalPath raw = some path → hasDotDot path = false
  | .installBundle raw _ _ => ∀ path, canonicalPath raw = some path → hasDotDot path = false
  | _ => True

lemma hasDotDot_trimEnd (h : hasDotDot (trimEnd p) = false) : hasDotDot p = false := by
  induction p using reverseRecOn with
  | nil => rfl
  | append_singleton p c ih =>
    by_cases hc : c = '/'
    · subst hc
      rw [trimEnd_append_slash] at h
      exact hasDotDot_append_slash (ih h) rfl
    · have hs : trimEnd (p ++ [c]) = p ++ [c] := trimEnd_eq_self (by simpa using hc)
      rwa [hs] at h

lemma hasDotDot_of_normalize (h : validPath (normalize p) = true) : hasDotDot p = false := by
  simp only [validPath, Bool.and_eq_true, Bool.not_eq_true'] at h
  have hd := h.2
  refine hasDotDot_trimEnd ?_
  rw [normalize_eq] at hd
  split at hd
  next hn =>
    rw [hn]
    rfl
  · split at hd
    · exact hd
    · exact hasDotDot_of_part (suffix_cons _ _).isInfix hd

lemma Issues.clean (h : Issues v req op) (hr : req.Clean)
    (hv : PathsValid v.directory.entries) : op.Clean ∧ op.isRestore = false := by
  cases h with
  | create hp _ _ | write hp | writeShared hp | install hp => exact ⟨hr _ hp, rfl⟩
  | append hg _ => exact ⟨hasDotDot_of_normalize (hv _ _ hg), rfl⟩
  | mkdir _ _ => exact ⟨trivial, rfl⟩
  | rmdir _ => exact ⟨trivial, rfl⟩
  | delete _ => exact ⟨trivial, rfl⟩
  | rename _ _ _ => exact ⟨trivial, rfl⟩

def Succeeds (_ : Service) : Call → Prop
  | .request req _ status => status = .ok ∧ req.Clean
  | .restart _ => True

lemma Synced.call (h : Synced G crc sb s.sys) (hc : Succeeds s c) (hs : s.Step G crc sha c t) : Synced G crc sb t.sys := by
  cases c with
  | request req fault status =>
    obtain ⟨rfl, hl⟩ := hc
    rcases Service.handle_spec (Service.step_request hs) with heq | ⟨op, hiss, heq, ho⟩
    · rw [heq]
      exact h
    · obtain ⟨hop, hr⟩ := hiss.clean hl h.valid
      rw [heq]
      exact h.after hr hop fun hf => absurd (ho rfl) hf
  | restart options =>
    obtain ⟨sys, hb, rfl⟩ := Option.map_eq_some_iff.mp hs
    exact @Synced.step G crc sha sb s.sys sys h (.remount options) trivial hb

lemma Synced.calls (h : Synced G crc sb s.sys)
    (hrun : Run (Transition.Guarded Succeeds (Service.Step G crc sha)) s cs t) : Synced G crc sb t.sys := by
  induction hrun with
  | nil => exact h
  | snoc _ hs ih => exact ih.call hs.1 hs.2

/-- Remount durability. After requests that have all succeeded, the device mounts, with the same
directory and the same contents. -/
theorem remount_after_requests {sys : System} {s : Service} {cs : List Call} (hstart : Formatted G crc options sys)
    (hrun : Run (Transition.Guarded Succeeds (Service.Step G crc sha)) (Service.start sys) cs s)
    (remount : MountOptions) : ∃ v,
    Fs.mount G crc s.sys.disk remount none = (.ok v, []) ∧ v.directory = s.sys.vol.directory ∧
      ∀ path, v.readFile G s.sys.disk path = s.sys.readFile G path := by
  obtain ⟨sb, hn⟩ := Synced.init hstart
  have hs : Synced G crc sb (Service.start sys).sys := hn
  exact (hs.calls hrun).mount_reads remount

/-- The same as `Succeeds`, for requests that are known. -/
def succeeds (_ : Service) : Call → Bool
  | .request req _ status => decide (status = .ok) &&
      match req with
      | .vtOpen raw true | .write raw _ | .writeShared raw _ | .installBundle raw _ _ =>
        (canonicalPath raw).all fun path => !hasDotDot path
      | _ => true
  | .restart _ => true

lemma Succeeds.of_succeeds (h : succeeds s c = true) : Succeeds s c := by
  have ha : ∀ {raw : Path}, ((canonicalPath raw).all fun path => !hasDotDot path) = true →
      ∀ path, canonicalPath raw = some path → hasDotDot path = false := by
    intro raw hr path hp
    rw [hp] at hr
    simpa using hr
  cases c with
  | request req fault status =>
    simp only [succeeds, Bool.and_eq_true, decide_eq_true_eq] at h
    refine ⟨h.1, ?_⟩
    unfold Request.Clean
    split <;> first | exact ha h.2 | trivial
  | restart options => trivial

/-- A directory with a file is made, and the directory is moved. -/
theorem remount_after_requests_rename : ∃ sys s, Formatted smallDevice crc32 defaultOptions sys ∧
    Run (Transition.Guarded Succeeds (Service.Step smallDevice crc32 zeroDigest)) (Service.start sys)
      [.request (.mkdir (pathOf "/d")) none .ok, .request (.vtOpen (pathOf "d/f") true) none .ok,
        .request (.vtWrite 1 [1, 2, 3]) none .ok, .request (.rename (pathOf "/d") (pathOf "/e/")) none .ok,
        .restart defaultOptions, .request (.write (pathOf "/g") ⟨[1], by decide⟩) none .ok] s ∧
    s.sys.readFile smallDevice (pathOf "/e/f") = .ok [1, 2, 3] ∧
    ∃ v, Fs.mount smallDevice crc32 s.sys.disk defaultOptions none = (.ok v, []) ∧ v.directory = s.sys.vol.directory ∧
      ∀ path, v.readFile smallDevice s.sys.disk path = s.sys.readFile smallDevice path := by
  refine exists_run_of_boot (guarded_of_guardedNext Succeeds.of_succeeds id)
    (fun s => match s.sys.readFile smallDevice (pathOf "/e/f") with
      | .ok data => decide (data = [1, 2, 3])
      | .error _ => false) (by decide +kernel)
    fun hb hrun hr => ⟨?_, remount_after_requests hb hrun defaultOptions⟩
  split at hr
  next data heq => rw [heq, of_decide_eq_true hr]
  · cases hr

/-- A file whose name has two dots in it is written, and the device does not mount any more. -/
theorem dots_in_name_unmountable : ∃ sys s, Formatted smallDevice crc32 defaultOptions sys ∧
    Run (Service.Step smallDevice crc32 zeroDigest) (Service.start sys)
      [.request (.write (pathOf "/a..b") ⟨[1], by decide⟩) none .ok] s ∧
    (Fs.mount smallDevice crc32 s.sys.disk defaultOptions none).1 = .error .pathInvalid := by
  refine exists_run_of_boot id (fun s => match (Fs.mount smallDevice crc32 s.sys.disk defaultOptions none).1 with
      | .ok _ => false
      | .error e => decide (e = .pathInvalid)) (by decide +kernel) fun _ _ hm => ?_
  split at hm
  · cases hm
  next e heq => rw [heq, of_decide_eq_true hm]

end ZeroOS.Fs
