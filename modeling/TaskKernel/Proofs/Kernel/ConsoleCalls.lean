/-
  TaskKernel.Proofs.Kernel.ConsoleCalls

  The calls that move bytes between the console and the running task. They go through the
  range in chunks, and every chunk is copied page by page; the two grids need not meet
  anywhere. Since both are the byte-wise loop over their part of the range, and that loop over
  a range is the loop over its first part followed by the loop over the rest, the calls do what
  one copy of the whole range does, also where it stops early.
-/
import TaskKernel.Kernel.SystemCall
import TaskKernel.Proofs.Machine.UserCopies

namespace TaskKernel

/-! ## Ranges in two parts -/

/-- The rest of a range of the user half lies in it. -/
theorem Address.rest_le {kind : AddressKind} {a : Address kind} {n len : Nat} (hle : n ≤ len)
    (h : a.toNat + len ≤ 2 ^ 48) : (a.plus n).toNat + (len - n) ≤ 2 ^ 48 := by
  rw [toNat_plus_of_lt (by omega)]
  omega

namespace AddressSpace

variable {space : AddressSpace} {ram start : Ram} {va : VirtAddr}

theorem readEach_add (space : AddressSpace) (ram : Ram) (va : VirtAddr) (m n : Nat) :
    (space.readEach ram va (m + n)).1 =
      match (space.readEach ram va m).1 with
      | .error e => .error e
      | .ok () => (space.readEach ram (va.plus m) n).1 := by
  induction m generalizing va with
  | zero => rw [Nat.zero_add, Address.plus_zero]; rfl
  | succ m ih =>
      rw [Nat.add_right_comm, readEach, readEach]
      cases space.translate ram va with
      | none => rfl
      | some pa =>
          have hrest := ih (va.plus 1)
          rwa [Address.plus_one_plus] at hrest

theorem writeEach_append (space : AddressSpace) (start ram : Ram) (va : VirtAddr)
    (bytes rest : List Byte) :
    space.writeEach start ram va (bytes ++ rest) =
      match space.writeEach start ram va bytes with
      | (.error e, ram) => (.error e, ram)
      | (.ok (), ram) => space.writeEach start ram (va.plus bytes.length) rest := by
  induction bytes generalizing va ram with
  | nil => rw [List.nil_append, List.length_nil, Address.plus_zero]; rfl
  | cons b bytes ih =>
      rw [List.cons_append, writeEach, writeEach]
      cases space.translate start va with
      | none => rfl
      | some pa =>
          have hrest := ih (ram.setByte pa b) (va.plus 1)
          rwa [Address.plus_one_plus] at hrest

theorem framesUnder_mono {m n : Nat} (h : m ≤ n) :
    space.framesUnder ram va m ⊆ space.framesUnder ram va n := by
  rintro frame ⟨i, hi, hframe⟩
  exact ⟨i, by omega, hframe⟩

theorem AvoidsTables.mono {m n : Nat} (h : space.AvoidsTables ram va n) (hle : m ≤ n) :
    space.AvoidsTables ram va m :=
  fun path table hdepth hfound hunder =>
    h path table hdepth hfound (framesUnder_mono hle hunder)

/-- Tables that the range does not lead to stay as they were. -/
theorem SameTables.writeEach (same : space.SameTables start ram) (va : VirtAddr)
    (bytes : List Byte) (avoids : space.AvoidsTables start va bytes.length) :
    space.SameTables start (space.writeEach start ram va bytes).2 :=
  fun path table hdepth hfound =>
    (frame_writeEach ram va bytes (avoids path table hdepth hfound)).trans
      (same path table hdepth hfound)

theorem copyFrom_fst_eq_readEach {buffer : List Byte} (hrange : va.toNat + buffer.length ≤ 2 ^ 48) :
    (space.copyFrom ram va buffer).1 = (space.readEach ram va buffer.length).1 := by
  rw [copyFrom, if_pos (inUserSpace_iff.2 hrange), readPieces_eq_readEach]

theorem copyTo_eq_writeEach {bytes : List Byte} (hrange : va.toNat + bytes.length ≤ 2 ^ 48)
    (avoids : space.AvoidsTables start va bytes.length) (same : space.SameTables start ram) :
    space.copyTo ram va bytes = space.writeEach start ram va bytes := by
  rw [copyTo, if_pos (inUserSpace_iff.2 hrange), writePieces_eq_writeEach ram va bytes avoids same]

end AddressSpace

namespace Kernel

variable {k : Kernel} {task : Task} {va : VirtAddr}

/-! ## What a chunk changes -/

/-- Afterwards the kernel has this memory; of the rest only the core may differ. -/
def Leaves (k : Kernel) (ram : Ram) (k' : Kernel) : Prop :=
  ∃ core, k' = { k with core, memory := { k.memory with ram } }

theorem Leaves.trans {k' k'' : Kernel} {ram ram' : Ram} (h : k.Leaves ram k')
    (h' : k'.Leaves ram' k'') : k.Leaves ram' k'' := by
  obtain ⟨_, rfl⟩ := h
  obtain ⟨core, rfl⟩ := h'
  exact ⟨core, rfl⟩

theorem Leaves.scheduler_eq {k' : Kernel} {ram : Ram} (h : k.Leaves ram k') :
    k'.scheduler = k.scheduler := by
  obtain ⟨_, rfl⟩ := h
  rfl

theorem Leaves.bus_eq {k' : Kernel} {ram : Ram} (h : k.Leaves ram k') : k'.bus = k.bus := by
  obtain ⟨_, rfl⟩ := h
  rfl

theorem Leaves.ram_eq {k' : Kernel} {ram : Ram} (h : k.Leaves ram k') : k'.memory.ram = ram := by
  obtain ⟨_, rfl⟩ := h
  rfl

theorem Leaves.print {k' : Kernel} {ram : Ram} (h : k.Leaves ram k') : k.Leaves ram k'.print := by
  obtain ⟨_, rfl⟩ := h
  exact ⟨_, rfl⟩

theorem receiveBytes_leaves (k : Kernel) (n : Nat) :
    (k.receiveBytes n).1 = Uart.receiveBytes k.bus n ∧
      k.Leaves k.memory.ram (k.receiveBytes n).2 :=
  ⟨rfl, _, rfl⟩

theorem readUser_leaves (current : k.scheduler.currentTask? = some task) (va : VirtAddr)
    (buffer : List Byte) :
    (k.readUser va buffer).1.map (fun _ => ()) =
        (task.space.copyFrom k.memory.ram va buffer).1.mapError .access ∧
      k.Leaves k.memory.ram (k.readUser va buffer).2 := by
  simp only [readUser, withCurrent, withLock, current]
  cases hcopy : task.space.copyFrom k.memory.ram va buffer with
  | mk result bytes =>
      cases result with
      | error e => exact ⟨rfl, _, rfl⟩
      | ok _ => exact ⟨rfl, _, rfl⟩

theorem writeUser_leaves (current : k.scheduler.currentTask? = some task) (va : VirtAddr)
    (bytes : List Byte) :
    (k.writeUser va bytes).1 = (task.space.copyTo k.memory.ram va bytes).1.mapError .access ∧
      k.Leaves (task.space.copyTo k.memory.ram va bytes).2 (k.writeUser va bytes).2 := by
  constructor
  · simp only [writeUser, withCurrent, withLock, current]
  · simp only [writeUser, withCurrent, withLock, current]
    exact ⟨_, rfl⟩

/-! ## The loops over chunks -/

/-- Sending chunk by chunk gets as far as reading the range byte by byte. -/
theorem writeChunks_leaves (current : k.scheduler.currentTask? = some task) {len : Nat}
    (hrange : va.toNat + len ≤ 2 ^ 48) :
    (k.writeChunks va len).1 = (task.space.readEach k.memory.ram va len).1.mapError .access ∧
      k.Leaves k.memory.ram (k.writeChunks va len).2 := by
  -- On what is left of the range; a chunk leaves scheduler and memory as they were.
  induction len using Nat.strong_induction_on generalizing k va with
  | _ len ih =>
    rw [writeChunks]
    split
    · next hpos =>
      dsimp only
      have hchunk : 0 < min chunkSize len := Nat.lt_min.2 ⟨by decide, hpos⟩
      have hle : min chunkSize len ≤ len := Nat.min_le_right _ _
      generalize min chunkSize len = n at hchunk hle
      have hcopy : (task.space.copyFrom k.memory.ram va (List.replicate n 0)).1 =
          (task.space.readEach k.memory.ram va n).1 := by
        rw [AddressSpace.copyFrom_fst_eq_readEach (by rw [List.length_replicate]; omega),
          List.length_replicate]
      obtain ⟨hresult, hleaves⟩ := readUser_leaves current va (List.replicate n 0)
      rw [hcopy] at hresult
      have hsplit := task.space.readEach_add k.memory.ram va n (len - n)
      rw [Nat.add_sub_cancel' hle] at hsplit
      rw [hsplit]
      generalize k.readUser va (List.replicate n 0) = r at hresult hleaves
      obtain ⟨result, k'⟩ := r
      cases hread : (task.space.readEach k.memory.ram va n).1 with
      | error e =>
          rw [hread] at hresult
          cases result with
          | error e' => exact ⟨hresult, hleaves⟩
          | ok bytes => cases hresult
      | ok _ =>
          rw [hread] at hresult
          cases result with
          | error e => cases hresult
          | ok bytes =>
              have hsent : k.Leaves k.memory.ram (k'.sendBytes bytes) := hleaves.print
              obtain ⟨hrest, hend⟩ := ih (len - n) (by omega)
                (by rwa [hsent.scheduler_eq]) (Address.rest_le hle hrange)
              rw [hsent.ram_eq] at hrest hend
              exact ⟨hrest, hsent.trans hend⟩
    · next hzero =>
      obtain rfl : len = 0 := by omega
      exact ⟨rfl, k.core, rfl⟩

/-- Receiving chunk by chunk writes the range as if byte by byte. -/
theorem readChunks_leaves {start : Ram} (current : k.scheduler.currentTask? = some task)
    {len : Nat} (hrange : va.toNat + len ≤ 2 ^ 48) (avoids : task.space.AvoidsTables start va len)
    (same : task.space.SameTables start k.memory.ram) :
    (k.readChunks va len).1 = (task.space.writeEach start k.memory.ram va
        (Uart.receiveBytes k.bus len)).1.mapError .access ∧
      k.Leaves (task.space.writeEach start k.memory.ram va (Uart.receiveBytes k.bus len)).2
        (k.readChunks va len).2 := by
  -- On what is left of the range; the tables stay as they were at the start.
  induction len using Nat.strong_induction_on generalizing k va with
  | _ len ih =>
    rw [readChunks]
    split
    · next hpos =>
      dsimp only
      have hchunk : 0 < min chunkSize len := Nat.lt_min.2 ⟨by decide, hpos⟩
      have hle : min chunkSize len ≤ len := Nat.min_le_right _ _
      generalize min chunkSize len = n at hchunk hle
      obtain ⟨hbytes, hreceived⟩ := k.receiveBytes_leaves n
      have hlength := Uart.length_receiveBytes k.bus n
      have hcopy : task.space.copyTo k.memory.ram va (Uart.receiveBytes k.bus n) =
          task.space.writeEach start k.memory.ram va (Uart.receiveBytes k.bus n) :=
        AddressSpace.copyTo_eq_writeEach (by omega) (avoids.mono (by omega)) same
      have hkept := same.writeEach va (Uart.receiveBytes k.bus n) (avoids.mono (by omega))
      have current' : (k.receiveBytes n).2.scheduler.currentTask? = some task := by
        rwa [hreceived.scheduler_eq]
      obtain ⟨hresult, hleaves⟩ := writeUser_leaves current' va (k.receiveBytes n).1
      rw [hbytes, hreceived.ram_eq, hcopy] at hresult hleaves
      have hwritten := hreceived.trans hleaves
      have hsplit := task.space.writeEach_append start k.memory.ram va (Uart.receiveBytes k.bus n)
        (Uart.receiveBytes k.bus (len - n))
      rw [← Uart.receiveBytes_add, Nat.add_sub_cancel' hle, hlength] at hsplit
      rw [hsplit, hbytes]
      generalize (k.receiveBytes n).2.writeUser va (Uart.receiveBytes k.bus n) = r at *
      obtain ⟨result, k'⟩ := r
      generalize task.space.writeEach start k.memory.ram va (Uart.receiveBytes k.bus n) = w at *
      obtain ⟨stop, ram'⟩ := w
      cases stop with
      | error e =>
          cases result with
          | error e' => exact ⟨hresult, hwritten⟩
          | ok _ => cases hresult
      | ok _ =>
          cases result with
          | error e => cases hresult
          | ok _ =>
              obtain ⟨hrest, hend⟩ := ih (len - n) (by omega) (k := k')
                (by rwa [hwritten.scheduler_eq]) (Address.rest_le hle hrange) avoids.rest
                (by rwa [hwritten.ram_eq])
              rw [hwritten.ram_eq, hwritten.bus_eq] at hrest hend
              exact ⟨hrest, hwritten.trans hend⟩
    · next hzero =>
      obtain rfl : len = 0 := by omega
      exact ⟨rfl, k.core, rfl⟩

/-! ## Calls -/

/-- A range outside the user half is refused as a single copy refuses it. -/
theorem transfer_of_lt {len : Nat} (hrange : 2 ^ 48 < va.toNat + len)
    (run : Kernel → VirtAddr → Nat → Except SystemCallError Unit × Kernel) :
    k.transfer va len run = (.error (.access (.badAddress va)), k) := by
  rw [transfer, if_neg]
  rw [AddressSpace.inUserSpace_iff]
  omega

theorem transfer_of_le {len : Nat} (hrange : va.toNat + len ≤ 2 ^ 48)
    (run : Kernel → VirtAddr → Nat → Except SystemCallError Unit × Kernel) :
    k.transfer va len run =
      ((run k va len).1.map fun () => BitVec.ofNat 64 len, (run k va len).2) := by
  rw [transfer, if_pos (AddressSpace.inUserSpace_iff.2 hrange)]

theorem transfer_writeChunks (current : k.scheduler.currentTask? = some task) (va : VirtAddr)
    (buffer : List Byte) :
    ((k.transfer va buffer.length writeChunks).1 =
        ((task.space.copyFrom k.memory.ram va buffer).1.mapError .access).map fun () =>
          BitVec.ofNat 64 buffer.length) ∧
      k.Leaves k.memory.ram (k.transfer va buffer.length writeChunks).2 := by
  by_cases hrange : va.toNat + buffer.length ≤ 2 ^ 48
  · obtain ⟨hresult, hleaves⟩ := writeChunks_leaves current hrange
    rw [transfer_of_le hrange, AddressSpace.copyFrom_fst_eq_readEach hrange, hresult]
    exact ⟨rfl, hleaves⟩
  · rw [transfer_of_lt (Nat.lt_of_not_le hrange), AddressSpace.copyFrom, if_neg]
    · exact ⟨rfl, k.core, rfl⟩
    · rwa [AddressSpace.inUserSpace_iff]

theorem transfer_readChunks (current : k.scheduler.currentTask? = some task) (va : VirtAddr)
    (len : Nat) (avoids : task.space.AvoidsTables k.memory.ram va len) :
    ((k.transfer va len readChunks).1 =
        ((task.space.copyTo k.memory.ram va (Uart.receiveBytes k.bus len)).1.mapError
          .access).map fun () => BitVec.ofNat 64 len) ∧
      k.Leaves (task.space.copyTo k.memory.ram va (Uart.receiveBytes k.bus len)).2
        (k.transfer va len readChunks).2 := by
  have hlength := Uart.length_receiveBytes k.bus len
  by_cases hrange : va.toNat + len ≤ 2 ^ 48
  · obtain ⟨hresult, hleaves⟩ := readChunks_leaves current hrange avoids fun _ _ _ _ => rfl
    rw [transfer_of_le hrange, AddressSpace.copyTo_eq_writeEach (by rwa [hlength])
      (by rwa [hlength]) fun _ _ _ _ => rfl, hresult]
    exact ⟨rfl, hleaves⟩
  · rw [transfer_of_lt (Nat.lt_of_not_le hrange), AddressSpace.copyTo, if_neg]
    · exact ⟨rfl, k.core, rfl⟩
    · rwa [AddressSpace.inUserSpace_iff, hlength]

/-- What a call leaves in x0 for a copy that ended this way. -/
def copyResult (length : Word) (result : Except AccessError Unit) : Word :=
  if result = .ok () then length else BitVec.allOnes 64

theorem reply_copy {ram : Ram} (frame : TrapFrame) (length : Word)
    (result : Except AccessError Unit) {outcome : Except SystemCallError Word × Kernel}
    (hresult : outcome.1 = (result.mapError .access).map fun () => length)
    (hleaves : k.Leaves ram outcome.2) :
    ∃ core, reply frame outcome =
      (.resume (frame.setReg 0 (copyResult length result)),
        { k with core, memory := { k.memory with ram } }) := by
  obtain ⟨value, k'⟩ := outcome
  cases result with
  | ok _ =>
      obtain rfl : value = .ok length := hresult
      obtain ⟨core, rfl⟩ := hleaves
      exact ⟨core, rfl⟩
  | error e =>
      obtain rfl : value = .error (.access e) := hresult
      obtain ⟨core, hprint⟩ := hleaves.print
      exact ⟨core, Prod.ext rfl hprint⟩

/-! ## The main result -/

/-- The two console calls of the running task do what one copy of the whole range does. Sending
    leaves the length in x0 if the range can be read and all ones otherwise, and changes nothing
    else. Receiving does the same with the range written, where it leads to no table of the
    task, and leaves in memory what one copy of the received bytes leaves there, also when it
    stops early. No other register changes, and of the kernel nothing but that memory and the
    state of the core. -/
theorem console_calls_copy_directly {task : Task} (current : k.scheduler.currentTask? = some task)
    (frame : TrapFrame) :
    let va : VirtAddr := ⟨frame.x.get 0⟩
    let length := frame.x.get 1
    let received := Uart.receiveBytes k.bus length.toNat
    (frame.x.get 8 = 2 → ∀ buffer : List Byte, buffer.length = length.toNat →
      ∃ core, k.dispatch frame =
        (.resume (frame.setReg 0
          (copyResult length (task.space.copyFrom k.memory.ram va buffer).1)), { k with core })) ∧
    (frame.x.get 8 = 1 → task.space.AvoidsTables k.memory.ram va length.toNat →
      ∃ core, k.dispatch frame =
        (.resume (frame.setReg 0
          (copyResult length (task.space.copyTo k.memory.ram va received).1)),
          { k with
            core
            memory := { k.memory with ram := (task.space.copyTo k.memory.ram va received).2 } })) ∧
    (k.bus = .inert → received = List.replicate length.toNat 0) := by
  intro va length received
  have hlength : BitVec.ofNat 64 length.toNat = length := by simp
  refine ⟨fun (hnumber : frame.x[8] = 2) buffer hbuffer => ?_,
    fun (hnumber : frame.x[8] = 1) avoids => ?_, fun hinert => ?_⟩
  · have hdecode : SystemCall.decode frame = .uartWrite va length.toNat := by
      simp only [SystemCall.decode, hnumber]
      rfl
    obtain ⟨hresult, hleaves⟩ := transfer_writeChunks current va buffer
    rw [hbuffer] at hresult hleaves
    rw [hlength] at hresult
    rw [dispatch, hdecode]
    exact reply_copy frame length _ hresult hleaves
  · have hdecode : SystemCall.decode frame = .uartRead va length.toNat := by
      simp only [SystemCall.decode, hnumber]
      rfl
    obtain ⟨hresult, hleaves⟩ := transfer_readChunks current va length.toNat avoids
    rw [hlength] at hresult
    rw [dispatch, hdecode]
    exact reply_copy frame length _ hresult hleaves
  · show Uart.receiveBytes k.bus length.toNat = _
    rw [hinert]
    rfl

/-- A hosted kernel with the tasks and the memory of a machine. -/
def hosting (m : Machine FramePool) : Kernel :=
  { poweredOn with scheduler := m.scheduler, memory := ⟨m.memory.ram, .unstarted⟩ }

/-- The idle task reads four bytes from the console, two of them into the next page. -/
theorem console_calls_copy_directly_idle :
    let k := hosting Machine.idleMachine
    let frame := ((TrapFrame.zero.setReg 8 1).setReg 0 0xffff_ffff_cffe).setReg 1 4
    ∃ task, k.scheduler.currentTask? = some task ∧
      task.space.AvoidsTables k.memory.ram ⟨0xffff_ffff_cffe⟩ 4 ∧
      ∃ core, k.dispatch frame =
        (.resume (frame.setReg 0 4),
          { k with
            core
            memory := { k.memory with
              ram := (task.space.copyTo k.memory.ram ⟨0xffff_ffff_cffe⟩ [0, 0, 0, 0]).2 } }) := by
  have hfits : (FramePool.ofPages 48).Fits := FramePool.fits_ofPages (by decide)
  have hfacts : Machine.idleMachine.scheduler.currentTask?.map (fun task => Decidable.decide
      (task.space.Covers Machine.idleMachine.memory.ram ⟨0xffff_ffff_cffe⟩ 4)) = some true := by
    decide +kernel
  obtain ⟨task, current, hcovers⟩ := Option.map_eq_some_iff.1 hfacts
  obtain ⟨log, audited, isolated⟩ :=
    Machine.run_idleMachine.isolated (by decide) (by decide) hfits
  have hwithheld : (FramePool.ofPages 48).Withholds ⟨0x9000⟩ :=
    FramePool.withholds_of_lt (by decide)
  have hlength := audited.history.length_used
  generalize Machine.idleMachine = m at *
  intro k frame
  have htask : task ∈ m.scheduler.store.tasks := by
    obtain ⟨id, -, hget⟩ := Option.bind_eq_some_iff.1 current
    exact TaskStore.mem_of_get? hget
  have clear := isolated.clear hlength hwithheld htask
  have avoids := clear.avoidsTables ⟨0xffff_ffff_cffe⟩ 4
  have hok : (task.space.copyTo k.memory.ram ⟨0xffff_ffff_cffe⟩ [0, 0, 0, 0]).1 = .ok () :=
    (AddressSpace.copyTo_spec clear _ _).1.2 ⟨by decide, of_decide_eq_true hcovers⟩
  obtain ⟨-, hread, -⟩ := console_calls_copy_directly (k := k) current frame
  obtain ⟨core, hrun⟩ := hread rfl avoids
  refine ⟨task, current, avoids, core, hrun.trans ?_⟩
  have hresult : copyResult 4
      (task.space.copyTo k.memory.ram ⟨0xffff_ffff_cffe⟩ [0, 0, 0, 0]).1 = 4 := if_pos hok
  exact congrArg (fun w => (Exit.resume (frame.setReg 0 w), _)) hresult

end Kernel
end TaskKernel
