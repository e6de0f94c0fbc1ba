import Mathlib.Algebra.Ring.Nat
import SolverAudit.Proofs.Storage.Folder
import SolverAudit.Proofs.Text.Numeral
import SolverAudit.Storage.Payload

/-!
# Stored instances

Storing payloads of an instance in a directory puts one file of each kind there and does nothing
else. The directories of instances with different numbers have different names.
-/

namespace SolverAudit.Storage

/-! ### Names of directories -/

/-- The number of an instance with zeros in front. -/
def numberText (number : Nat) : List Char :=
  List.replicate (6 - (Numeral.digits number).length) '0' ++ Numeral.digits number

theorem isDigit_of_mem_numberText {number : Nat} {c : Char} (hc : c ∈ numberText number) :
    c.isDigit = true := by
  rcases List.mem_append.mp hc with hc | hc
  · rw [List.eq_of_mem_replicate hc]
    decide
  · exact Numeral.isDigit_of_mem_digits hc

theorem instanceName_eq (number : Nat) :
    instanceName number = "instance_" ++ String.ofList (numberText number) := rfl

theorem toList_instanceName (number : Nat) :
    (instanceName number).toList = "instance_".toList ++ numberText number := by
  rw [instanceName_eq, String.toList_append]
  exact congrArg ("instance_".toList ++ ·) String.toList_ofList

theorem instanceName_injective : Function.Injective instanceName := by
  intro number number' hsame
  have hlists := congrArg String.toList hsame
  rw [toList_instanceName, toList_instanceName] at hlists
  have hvalues := congrArg Numeral.value (List.append_cancel_left hlists)
  rwa [numberText, numberText, Numeral.value_zeros_append, Numeral.value_zeros_append,
    Numeral.value_digits, Numeral.value_digits] at hvalues

theorem mem_instanceName {number : Nat} {c : Char} (hc : c ∈ (instanceName number).toList) :
    c ∈ "instance_".toList ∨ c.isDigit = true := by
  rw [toList_instanceName] at hc
  exact (List.mem_append.mp hc).imp_right isDigit_of_mem_numberText

/-- The name of a directory gets longer with the digits of its number. -/
theorem utf8ByteSize_instanceName_le {number digits : Nat} (hdigits : 6 ≤ digits)
    (hnumber : number < 10 ^ digits) : (instanceName number).utf8ByteSize ≤ 9 + digits := by
  have hlength : (Numeral.digits number).length ≤ digits :=
    (Nat.length_toDigits_le_iff (by decide) (by omega)).mpr hnumber
  have hsize : (instanceName number).utf8ByteSize = 9 + (numberText number).length := by
    rw [instanceName_eq, String.utf8ByteSize_append,
      Numeral.utf8ByteSize_ofList fun _ => isDigit_of_mem_numberText]
    rfl
  rw [hsize, numberText, List.length_append, List.length_replicate]
  omega

theorem isFileName_instanceName {number digits : Nat} (hdigits : 6 ≤ digits)
    (hlimit : digits ≤ 246) (hnumber : number < 10 ^ digits) :
    IsFileName (instanceName number) := by
  have hlong : 9 ≤ (instanceName number).toList.length := by
    rw [toList_instanceName, List.length_append]
    exact Nat.le_add_right _ _
  have hne : ∀ short : String, short.toList.length < 9 → instanceName number ≠ short := by
    rintro _ hshort rfl
    omega
  have hnot : ∀ c, c ∉ "instance_".toList → c.isDigit = false →
      c ∉ (instanceName number).toList := by
    intro c hletters hdigit hc
    rcases mem_instanceName hc with hc | hc
    · exact hletters hc
    · rw [hdigit] at hc
      cases hc
  have hsize := utf8ByteSize_instanceName_le hdigits hnumber
  refine .of_chars ⟨hne _ (by decide), hnot _ (by decide) (by decide),
    hnot _ (by decide) (by decide), ?_, ?_⟩
  · simp only [isDots, Bool.or_eq_false_iff, beq_eq_false_iff_ne]
    exact ⟨hne _ (by decide), hne _ (by decide)⟩
  · rw [isTooLong, decide_eq_false_iff_not, longestName]
    omega

/-! ### Payload files -/

section

variable {ι : Type} [Payloads ι]

def payloadText (x : ι) (kind : String) : String := (Payloads.text? x kind).getD ""

/-- The files of an instance, one for each of the given kinds. -/
def payloadFiles (x : ι) (kinds : List String) : List (String × String) :=
  kinds.map fun kind => (s!"instance.{kind}", payloadText x kind)

def payloadPaths (kinds : List String) (directory : String) : List String :=
  kinds.map fun kind => Path.join directory s!"instance.{kind}"

/-- The greatest number of bytes that the names of kept files have. -/
def longestFileName : Nat := 24

/-- Whatever the instance, there is a payload of the kind, in a file of a short name. -/
structure Storable (ι : Type) [Payloads ι] (kind : String) : Prop where
  isFileName : IsFileName s!"instance.{kind}"
  short : s!"instance.{kind}".utf8ByteSize ≤ longestFileName
  exists_text : ∀ x : ι, ∃ text, Payloads.text? x kind = some text

theorem Storable.payload_eq_ok {kind : String} (h : Storable ι kind) (x : ι) :
    payload x kind = .ok (payloadText x kind) := by
  obtain ⟨text, htext⟩ := h.exists_text x
  rw [payload, payloadText, htext]
  rfl

theorem Storable.run_lift_payload {kind : String} (h : Storable ι kind) (x : ι) (s : Storage) :
    (Attempt.lift (payload x kind)).run s = (.ok (payloadText x kind), s) := by
  rw [Attempt.run_lift, h.payload_eq_ok]

theorem names_payloadFiles (x : ι) (kinds : List String) :
    (payloadFiles x kinds).map Prod.fst = kinds.map fun kind => s!"instance.{kind}" := by
  rw [payloadFiles, List.map_map]
  rfl

end

/-! ### Folders of payloads -/

/-- Nothing is in the way of a folder in a directory that a path leads to. -/
structure Vacant (s : Storage) (directory name : String) (place : Place) : Prop where
  leads : s.LeadsTo directory place
  isFileName : IsFileName name
  free : s.Free (place ++ [name])
  room : (Path.join directory name).utf8ByteSize + 1 + longestFileName ≤ longestPath

namespace Vacant

variable {ι : Type} [Payloads ι] {s : Storage} {directory name : String} {place : Place}
  (h : s.Vacant directory name place)

include h

theorem size_le : (Path.join directory name).utf8ByteSize ≤ longestPath := by
  have hroom := h.room
  omega

theorem leadsTo (files : List (String × String)) :
    LeadsTo (s.withFolder (place ++ [name]) files) directory place :=
  h.leads.withFolder h.free

/-- A file of a short name can be put into the folder. -/
theorem withFile {file : String} (hfile : IsFileName file)
    (hshort : file.utf8ByteSize ≤ longestFileName) (files : List (String × String))
    (content : String) :
    Storage.withFile (s.withFolder (place ++ [name]) files)
        (Path.join (Path.join directory name) file) content =
      .ok (s.withFolder (place ++ [name]) (files ++ [(file, content)])) := by
  have hsize : (Path.join (Path.join directory name) file).utf8ByteSize ≤ longestPath := by
    have hjoin := Path.utf8ByteSize_join_le (Path.join directory name) file
    have hroom := h.room
    omega
  rw [withFile_join (h.leads.intoFolder h.isFileName h.free) hfile hsize
    (entry?_withFolder_ne_directory h.free file), withFolder_append]
  rfl

/-- The folder can be taken away again. -/
theorem withoutDirectory (files : List (String × String)) :
    Storage.withoutDirectory (s.withFolder (place ++ [name]) files) (Path.join directory name) =
      .ok s := by
  have hthere : entry? (s.withFolder (place ++ [name]) files) (place ++ [name]) =
      some .directory := entry?_withFolder_self (by simp)
  rw [withoutDirectory_join (h.leadsTo files) h.isFileName h.size_le hthere,
    without_withFolder h.free]

/-- The file of a payload is there, still empty, before the content is known. -/
theorem run_storePayload (x : ι) {kind : String} (hkind : Storable ι kind)
    (files : List (String × String)) :
    (storePayload x (Path.join directory name) kind).run (s.withFolder (place ++ [name]) files) =
      (.ok (Path.join (Path.join directory name) s!"instance.{kind}"),
        s.withFolder (place ++ [name]) (files ++ payloadFiles x [kind])) := by
  have hempty := h.withFile hkind.isFileName hkind.short files ""
  have hfull := h.withFile hkind.isFileName hkind.short (files ++ [(s!"instance.{kind}", "")])
    (payloadText x kind)
  rw [withFolder_concat_concat] at hfull
  refine Attempt.run_bind_eq_ok.mpr ⟨(), _, Attempt.run_during_of_ok ?_ _, rfl⟩
  rw [Attempt.run_bind_of_ok (run_attempt_of_ok hempty),
    Attempt.run_bind_of_ok (hkind.run_lift_payload x _)]
  exact run_attempt_of_ok hfull

theorem run_mapM_storePayload (x : ι) {kinds : List String}
    (hkinds : ∀ kind ∈ kinds, Storable ι kind) (files : List (String × String)) :
    (kinds.mapM (storePayload x (Path.join directory name))).run
        (s.withFolder (place ++ [name]) files) =
      (.ok (payloadPaths kinds (Path.join directory name)),
        s.withFolder (place ++ [name]) (files ++ payloadFiles x kinds)) := by
  induction kinds generalizing files with
  | nil =>
      rw [payloadFiles, List.map_nil, List.append_nil]
      rfl
  | cons kind kinds ih =>
      obtain ⟨hkind, hrest⟩ := List.forall_mem_cons.mp hkinds
      have hfirst := h.run_storePayload x hkind files
      have hothers := ih hrest (files ++ payloadFiles x [kind])
      rw [List.mapM_cons, Attempt.run_bind_of_ok hfirst, Attempt.run_bind_of_ok hothers,
        List.append_assoc]
      rfl

variable {kinds : List String} (hkinds : ∀ kind ∈ kinds, Storable ι kind)

include hkinds

/-- Where nothing is, a folder with the files is made. -/
theorem run_storePayloads (x : ι) :
    (storePayloads x kinds (Path.join directory name)).run s =
      (.ok (payloadPaths kinds (Path.join directory name)),
        s.withFolder (place ++ [name]) (payloadFiles x kinds)) := by
  have hcreate := run_createDirectory_join_of_absent h.leads h.isFileName h.size_le
    h.free.entry?_eq_none
  -- The directory is a folder without files.
  have hempty : (createDirectory (Path.join directory name)).run s =
      (.ok (), s.withFolder (place ++ [name]) []) := hcreate
  rw [storePayloads, Attempt.run_bind_of_ok (Attempt.run_during_of_ok hempty _)]
  exact h.run_mapM_storePayload x hkinds []

/-- The files are stored once more in a folder that is there. -/
theorem run_storePayloads_again (x : ι) (files : List (String × String)) :
    (storePayloads x kinds (Path.join directory name)).run (s.withFolder (place ++ [name]) files) =
      (.ok (payloadPaths kinds (Path.join directory name)),
        s.withFolder (place ++ [name]) (files ++ payloadFiles x kinds)) := by
  have hthere : entry? (s.withFolder (place ++ [name]) files) (place ++ [name]) =
      some .directory := entry?_withFolder_self (by simp)
  have hcreate := run_createDirectory_join_of_directory (h.leadsTo files) h.isFileName h.size_le
    hthere
  rw [storePayloads, Attempt.run_bind_of_ok (Attempt.run_during_of_ok hcreate _)]
  exact h.run_mapM_storePayload x hkinds files

end Vacant

end SolverAudit.Storage
