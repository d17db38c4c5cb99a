import Ckcore.File.Exec

/-! Writing through a `File` and reading back after reopening it. With no other process
acting, the `Read` calls return the bytes written over what the file held before, however
the kernel cuts the calls short and whichever calls fail, provided each `Read` asks for at
least one byte: a `Read` of no bytes returns 0 at once, before the end of the file. -/
namespace Ckcore.File
open Posix

/-- `Write` calls on `f`, each passing the bytes of `buffer` from the first not yet written,
with any count; `written` goes up by what each call returns, by nothing for a failed call. -/
inductive Writes (kernel : World → Syscall → Reply → World → Prop) (f : File) (buffer : List UInt8) :
    Nat → World → Nat → World → Prop
  | nil (written : Nat) (w : World) : Writes kernel f buffer written w written w
  | step {written w count events} {n : Int} {w₁ total w₂}
      (ran : Exec kernel Eq (f.write (buffer.drop written) count) w events n w₁)
      (rest : Writes kernel f buffer (written + n.toNat) w₁ total w₂) :
      Writes kernel f buffer written w total w₂

/-- `Read` calls on `f` with the counts `counts`, the last and only the last returning 0;
`bytes` is what they stored, in order. -/
inductive Reads (kernel : World → Syscall → Reply → World → Prop) (f : File) :
    World → List Nat → List UInt8 → World → Prop
  | last {w count events buffer w'} (ran : Exec kernel Eq (f.read count) w events (0,buffer) w') :
      Reads kernel f w [count] buffer w'
  | step {w count events} {n : Int} {buffer w₁ counts rest w₂}
      (ran : Exec kernel Eq (f.read count) w events (n,buffer) w₁) (more : n ≠ 0)
      (next : Reads kernel f w₁ counts rest w₂) :
      Reads kernel f w (count :: counts) (buffer ++ rest) w₂

/-- `Open(ckOPEN_WRITE)` on a new `File`, `Write` calls from offset 0, `Close()`,
`Open(ckOPEN_READ)`, and `Read` calls until one returns 0. -/
inductive RoundTrip (kernel : World → Syscall → Reply → World → Prop) (filePath : Path)
    (w : World) (buffer : List UInt8) (counts : List Nat) (written : Nat) (bytes : List UInt8) :
    Prop
  | mk {events₁ opened f₁ w₁ w₂ events₂ closed f₂ w₃ events₃ reopened f₃ w₄ w₅}
      (opening : Exec kernel Eq ((ofPath filePath).open .ckOpenWrite) w events₁ (opened,f₁) w₁)
      (writing : Writes kernel f₁ buffer 0 w₁ written w₂)
      (closing : Exec kernel Eq f₁.close w₂ events₂ (closed,f₂) w₃)
      (reopening : Exec kernel Eq (f₂.open .ckOpenRead) w₃ events₃ (reopened,f₃) w₄)
      (reading : Reads kernel f₃ w₄ counts bytes w₅)

theorem splice_written {buffer prior : List UInt8} {written count n : Nat}
    (within : written ≤ buffer.length) (short : n ≤ ((buffer.drop written).take count).length) :
    splice (buffer.take written ++ prior.drop written) written
        (((buffer.drop written).take count).take n) =
      buffer.take (written + n) ++ prior.drop (written + n) := by
  have taken : (buffer.take written).length = written := List.length_take_of_le within
  simp only [List.length_take,List.length_drop] at short
  have piece : ((buffer.drop written).take count).take n = (buffer.drop written).take n := by
    rw [List.take_take,Nat.min_eq_left (by omega)]
  have pieceLength : ((buffer.drop written).take n).length = n := by
    simp only [List.length_take,List.length_drop]
    omega
  rw [piece,splice,pieceLength,List.take_add,List.length_append,taken,List.take_left' taken,
    List.drop_append_eq_append_drop,taken,
    List.drop_eq_nil_of_le (show (buffer.take written).length ≤ written + n by omega),
    Nat.add_sub_cancel_left,List.drop_drop]
  simp only [Nat.add_comm n,List.append_nil,List.nil_append,List.length_drop,List.append_assoc]
  rw [Nat.sub_eq_zero_of_le (Nat.le_add_right _ _),List.replicate_zero,List.nil_append]

/-- What the `Write` calls keep: `f` is on `filePath`, the file there holds the first
`written` bytes of `buffer` over `prior`, and the descriptor `f` holds, if any, was released
by a failed `close(2)` or writes to that file at offset `written`. -/
structure Writing (filePath : Path) (prior buffer : List UInt8) (f : File) (written : Nat)
    (w : World) : Prop where
  path : f.filePath = filePath
  within : written ≤ buffer.length
  bytes : w.bytesAt filePath.name = buffer.take written ++ prior.drop written
  writes : f.fileHandle = -1 ∨ w.fds f.fileHandle = none ∨ ∃ ino, w.names filePath.name = some ino ∧
    w.fds f.fileHandle = some ⟨ino,written,.oWronly⟩

/-- `f` holds a descriptor that reads `bytes` from `offset`. -/
def Reading (bytes : List UInt8) (f : File) (offset : Nat) (w : World) : Prop :=
  f.fileHandle ≠ -1 ∧ ∃ ino, w.fds f.fileHandle = some ⟨ino,offset,.oRdonly⟩ ∧
    (w.inodes ino).data = bytes

/-- `f` holds no descriptor, or one not open for reading. -/
def Unreadable (f : File) (w : World) : Prop :=
  f.fileHandle = -1 ∨ ∀ description, w.fds f.fileHandle = some description →
    description.accessMode ≠ .oRdonly

variable {filePath : Path} {prior buffer : List UInt8} {f f₁ : File} {written : Nat}
  {w w' : World} {events : List Event}

theorem Writing.unreadable (writing : Writing filePath prior buffer f written w) :
    Unreadable f w := by
  rcases writing.writes with unheld | closed | ⟨ino,-,described⟩
  · exact .inl unheld
  · exact .inr fun _ found => by rw [closed] at found; cases found
  · exact .inr fun _ found => by
      cases described.symm.trans found
      nofun

theorem open_write_writing {opened : Bool}
    (ran : Exec Kernel Eq ((ofPath filePath).open .ckOpenWrite) w events (opened,f₁) w') :
    Writing filePath (w.bytesAt filePath.name) buffer f₁ 0 w' := by
  rcases open_kernel ran with ⟨-,rfl,kept⟩ | ⟨mid,reply,⟨-,rfl⟩ | ⟨holding,-⟩,answer,-,rfl⟩
  · rcases kept with rfl | ⟨-,rfl⟩ <;> exact ⟨rfl,Nat.zero_le _,by simp,.inl rfl⟩
  · rcases Kernel.open_cases answer with ⟨failed,rfl⟩ | ⟨fd,ino,rfl,-,⟨named,rfl⟩ | ⟨-,absent,-,rfl⟩⟩
    · exact ⟨rfl,Nat.zero_le _,by simp,.inl failed⟩
    · exact ⟨rfl,Nat.zero_le _,by simp,.inr (.inr ⟨ino,named,by simp⟩)⟩
    · have absent : mid.names filePath.name = none := absent
      exact ⟨rfl,Nat.zero_le _,by simp [World.bytesAt,absent],.inr (.inr ⟨ino,by simp,by simp⟩)⟩
  · exact absurd rfl holding

theorem write_writing {count : Nat} {n : Int} (writing : Writing filePath prior buffer f written w)
    (ran : Exec Kernel Eq (f.write (buffer.drop written) count) w events n w') :
    Writing filePath prior buffer f (written + n.toNat) w' := by
  rcases write_exec ran with ⟨-,rfl,-,rfl⟩ | ⟨holding,reply,called,rfl⟩
  · simpa using writing
  obtain ⟨_,rfl,answer,rfl⟩ := Exec.sys_iff.mp called
  rcases writing.writes.resolve_left holding with closed | ⟨ino,named,described⟩
  · obtain ⟨rfl,rfl⟩ := answer.on_closed rfl closed
    simpa [Reply.failure] using writing
  rcases answer.write_described described rfl with ⟨rfl,rfl⟩ | ⟨k,short,returned,rfl⟩
  · simpa [Reply.failure] using writing
  rw [returned,Int.toNat_ofNat]
  have data : (w.inodes ino).data = buffer.take written ++ prior.drop written :=
    (World.bytesAt_linked named).symm.trans writing.bytes
  refine ⟨writing.path,?_,?_,.inr (.inr ⟨ino,named,by simp⟩)⟩
  · have := writing.within
    simp only [List.length_take,List.length_drop] at short
    omega
  · rw [World.setFd_bytesAt,World.bytesAt_linked (show (w.setInode ino _).names _ = _ from named)]
    simp [data,splice_written writing.within short]

theorem writes_writing {total : Nat} (run : Writes Kernel f buffer written w total w')
    (writing : Writing filePath prior buffer f written w) : Writing filePath prior buffer f total w' := by
  induction run with
  | nil => exact writing
  | step ran _ ih => exact ih (write_writing writing ran)

theorem close_writing {closed : Bool} (ran : Exec Kernel Eq f.close w events (closed,f₁) w')
    (writing : Writing filePath prior buffer f written w) :
    Writing filePath prior buffer f₁ written w' := by
  rcases close_kernel ran with ⟨-,rfl,rfl⟩ | ⟨-,rfl,rfl | ⟨-,rfl⟩⟩
  · exact ⟨writing.path,writing.within,by simpa using writing.bytes,.inl rfl⟩
  · exact writing
  · exact ⟨writing.path,writing.within,by simpa using writing.bytes,.inr (.inl (by simp))⟩

theorem open_read_reading {opened : Bool}
    (ran : Exec Kernel Eq (f.open .ckOpenRead) w events (opened,f₁) w')
    (writing : Writing filePath prior buffer f written w) :
    Unreadable f₁ w' ∨ Reading (buffer.take written ++ prior.drop written) f₁ 0 w' := by
  rcases open_kernel ran with ⟨-,rfl,rfl | ⟨-,rfl⟩⟩ | ⟨mid,reply,closed,answer,-,rfl⟩
  · exact .inl writing.unreadable
  · exact .inl (.inr fun _ found => by simp at found)
  have kept : mid.bytesAt filePath.name = w.bytesAt filePath.name := by
    rcases closed with ⟨-,rfl⟩ | ⟨-,rfl⟩ <;> simp
  rcases Kernel.open_cases answer with ⟨failed,-⟩ | ⟨fd,ino,opened,lowest,⟨named,rfl⟩ | ⟨never,-⟩⟩
  · exact .inl (.inl failed)
  · have linked : mid.names filePath.name = some ino := writing.path ▸ named
    refine .inr ⟨fun failed => ?_,ino,by simp [opened],?_⟩
    · have := lowest.1
      change reply.ret = -1 at failed
      omega
    · rw [World.setFd_inodes,← World.bytesAt_linked linked,kept,writing.bytes]
  · cases never

theorem unreadable_read {count : Nat} {n : Int} {bytes : List UInt8} (unreadable : Unreadable f w)
    (ran : Exec Kernel Eq (f.read count) w events (n,bytes) w') : n = -1 ∧ w' = w := by
  rcases read_exec ran with ⟨-,equal,-,rfl⟩ | ⟨holding,reply,called,equal⟩
  · cases equal
    exact ⟨rfl,rfl⟩
  obtain ⟨_,rfl,answer,rfl⟩ := Exec.sys_iff.mp called
  obtain ⟨rfl,rfl⟩ := answer.read_unreadable (unreadable.resolve_left holding)
  cases equal
  exact ⟨rfl,rfl⟩

theorem reads_unreadable {counts : List Nat} {bytes : List UInt8}
    (run : Reads Kernel f w counts bytes w') (unreadable : Unreadable f w) : False := by
  induction run with
  | last ran => exact absurd (unreadable_read unreadable ran).1 (by decide)
  | step ran _ _ ih => exact ih ((unreadable_read unreadable ran).2 ▸ unreadable)

theorem reading_read {bytes buffer : List UInt8} {offset count : Nat} {n : Int}
    (reading : Reading bytes f offset w)
    (ran : Exec Kernel Eq (f.read count) w events (n,buffer) w') :
    n = -1 ∧ buffer = [] ∧ w' = w ∨ ∃ k : Nat, n = k ∧ buffer = (bytes.drop offset).take k ∧
      Reading bytes f (offset + k) w' ∧ (0 < count → offset < bytes.length → 0 < k) := by
  obtain ⟨holding,ino,described,data⟩ := reading
  rcases read_exec ran with ⟨unheld,-⟩ | ⟨-,reply,called,equal⟩
  · exact absurd unheld holding
  obtain ⟨_,rfl,answer,rfl⟩ := Exec.sys_iff.mp called
  rcases answer.read_described described rfl with ⟨rfl,rfl⟩ | ⟨k,-,progress,rfl,rfl⟩
  · cases equal
    exact .inl ⟨rfl,rfl,rfl⟩
  cases equal
  refine .inr ⟨k,rfl,by simp [data],⟨holding,ino,by simp,by simp [data]⟩,fun asked left =>
    progress asked ?_⟩
  simp only [Description.available,data]
  omega

theorem reads_reading {bytes bytes' : List UInt8} {offset : Nat} {counts : List Nat}
    (run : Reads Kernel f w counts bytes' w') (positive : ∀ count ∈ counts, 0 < count)
    (reading : Reading bytes f offset w) : bytes' = bytes.drop offset := by
  induction run generalizing offset with
  | last ran =>
    rcases reading_read reading ran with ⟨never,-⟩ | ⟨k,returned,rfl,-,progress⟩
    · exact absurd never (by decide)
    obtain rfl : k = 0 := by omega
    have ended : bytes.length ≤ offset := Nat.le_of_not_lt fun left =>
      absurd (progress (positive _ (List.mem_singleton_self _)) left) (Nat.lt_irrefl 0)
    simp [List.drop_eq_nil_of_le ended]
  | step ran _ _ ih =>
    have rest := fun count member => positive count (List.mem_cons_of_mem _ member)
    rcases reading_read reading ran with ⟨-,rfl,rfl⟩ | ⟨k,-,rfl,next,-⟩
    · simpa using ih rest reading
    · rw [ih rest next,← List.drop_drop,List.take_append_drop]

/-- The round trip, whatever the kernel answers to each call: the `Read` calls, each asking
for at least one byte, return the first `written` bytes of `buffer` and then what the file
held from there on, where `written` is the sum of what the `Write` calls returned. -/
theorem write_read_round_trip (filePath : Path) (w : World) (buffer : List UInt8)
    (counts : List Nat) (written : Nat) (bytes : List UInt8)
    (trip : RoundTrip Kernel filePath w buffer counts written bytes)
    (positive : ∀ count ∈ counts, 0 < count) :
    bytes = buffer.take written ++ (w.bytesAt filePath.name).drop written := by
  obtain ⟨opening,writing,closing,reopening,reading⟩ := trip
  have wrote := close_writing closing (writes_writing writing (open_write_writing opening))
  rcases open_read_reading reopening wrote with unreadable | ready
  · exact (reads_unreadable reading unreadable).elim
  · simpa using reads_reading reading positive ready

/-- A file at `f` holding the bytes 1, 2, 3, readable and writable by its owner. -/
def overlayStart : World where
  names name := if name = "f" then some 0 else none
  inodes _ := ⟨[1,2,3],0o600,0,0,0⟩
  fds _ := none
  clock := 0

theorem overlay_trip {kernel : World → Syscall → Reply → World → Prop}
    (embed : ∀ w request reply w', Step w request reply w' → kernel w request reply w') :
    ∃ w, (∀ counts bytes w', Reads kernel ⟨0,⟨"f"⟩⟩ w counts bytes w' →
      RoundTrip kernel ⟨"f"⟩ overlayStart [4] counts 1 bytes) ∧
      w.fds 0 = some ⟨0,0,.oRdonly⟩ ∧ (w.inodes 0).data = [4,2,3] :=
  ⟨_,fun _ _ _ reading => ⟨
    .call rfl (embed _ _ _ _ (.openLinked rfl (by decide) (.zero rfl))) (.pure _ _),
    .step (.call rfl (embed _ _ _ _ (@Step.write _ _ _ 1 _ 1 rfl rfl (Nat.le_refl 1) fun _ =>
      Nat.one_pos)) (.pure _ _)) (.nil _ _),
    .call rfl (embed _ _ _ _ (.closeOpen rfl)) (.pure _ _),
    .call rfl (embed _ _ _ _ (.openLinked rfl (by decide) (.zero rfl))) (.pure _ _),
    reading⟩,rfl,rfl⟩

/-- A `Read` of no bytes returns 0 at once: the reads end having returned nothing, though
the file holds 4, 2, 3. -/
theorem round_trip_empty_read :
    RoundTrip Step ⟨"f"⟩ overlayStart [4] [0] 1 [] ∧
      [] ≠ [4].take 1 ++ (overlayStart.bytesAt "f").drop 1 := by
  obtain ⟨w,trip,described,-⟩ := overlay_trip fun _ _ _ _ => id
  exact ⟨trip _ _ _ (.last (.call rfl (.read described rfl (Nat.le_refl 0) (Nat.zero_le _)
    fun positive => absurd positive (Nat.lt_irrefl 0)) (.pure _ _))),by decide⟩

/-- `Read(3)` and then `Read(1)` after the writes: they return 4, 2, 3 and then 0. -/
theorem write_read_round_trip_overlay :
    ∃ bytes, RoundTrip Kernel ⟨"f"⟩ overlayStart [4] [3,1] 1 bytes ∧ (∀ count ∈ [3,1], 0 < count) ∧
      bytes = [4].take 1 ++ (overlayStart.bytesAt "f").drop 1 := by
  obtain ⟨w,trip,described,data⟩ := overlay_trip fun _ _ _ _ => Kernel.of_step
  have reading : Reads Kernel ⟨0,⟨"f"⟩⟩ w [3,1] _ _ :=
    .step (.call rfl (.of_step (.read described rfl (Nat.le_refl 3)
        (by simp [Description.available,data]) fun _ _ => Nat.succ_pos 2)) (.pure _ _)) (by simp)
      (.last (.call rfl (.of_step (.read rfl rfl (Nat.zero_le 1) (Nat.zero_le _) fun _ left =>
        absurd left (by simp [Description.available,data]))) (.pure _ _)))
  exact ⟨_,trip _ _ _ reading,by decide,
    write_read_round_trip _ _ _ _ _ _ (trip _ _ _ reading) (by decide)⟩

end Ckcore.File
