import OpenALRenderer.Foundation.Terminated
import OpenALRenderer.Model.Devices
import Mathlib.Data.List.TakeWhile

/-! # The device list that `GetAllDevices` decodes -/

namespace OpenALRenderer.CharBuffer

open Foundation

/-- What `alcGetString` returns for a list of names: each with a NUL after it, and one more. -/
def encode (names : List String) : List Char := terminated nul (names.map String.toList)

theorem encode_cons (name : String) (names : List String) :
    encode (name :: names) = name.toList ++ nul :: encode names :=
  terminated_cons _ _

theorem devicesFrom_nul (s : List Char) : devicesFrom (nul :: s) = some [] := by
  rw [devicesFrom, if_pos rfl]

/-- One round of the loop takes the first name and skips its NUL. -/
theorem devicesFrom_append {name : String} (hne : name ≠ "") (hnul : nul ∉ name.toList)
    (rest : List Char) :
    devicesFrom (name.toList ++ nul :: rest) = (devicesFrom rest).map (name :: ·) := by
  have hlen : strlen (name.toList ++ nul :: rest) = some name.toList.length :=
    idxOf?_append_mark hnul rest
  have htake : (name.toList ++ nul :: rest).take name.toList.length = name.toList := by simp
  have hdrop : (name.toList ++ nul :: rest).drop (name.toList.length + 1) = rest := by simp
  obtain ⟨c, cs, hcs⟩ : ∃ c cs, name.toList = c :: cs := by
    cases h : name.toList with
    | nil => exact absurd (String.toList_eq_nil_iff.mp h) hne
    | cons c cs => exact ⟨c, cs, rfl⟩
  have hc : c ≠ nul := fun h => hnul (by rw [hcs, h]; exact List.mem_cons_self)
  have hname : String.ofList (c :: cs) = name := by rw [← hcs, String.ofList_toList]
  rw [hcs] at hlen htake hdrop ⊢
  rw [List.cons_append] at hlen htake hdrop ⊢
  rw [devicesFrom, if_neg hc, hlen]
  simp only [htake, hdrop, hname]

/-- The bytes hold the names that the strings of `alcGetString` stand for: those before the first
empty one. -/
theorem getAllDevices_encode_eq {names : List String} (h : ∀ name ∈ names, nul ∉ name.toList)
    (beyond : List Char) :
    getAllDevices (some (encode names ++ beyond)) =
      some (OpenALRenderer.getAllDevices (some names)) := by
  change devicesFrom _ = some (names.takeWhile fun name => name ≠ "")
  induction names with
  | nil => exact devicesFrom_nul beyond
  | cons name names ih =>
      obtain ⟨hname, hnames⟩ := List.forall_mem_cons.mp h
      rw [encode_cons, List.append_assoc, List.cons_append]
      by_cases hempty : name = ""
      · rw [hempty]
        exact devicesFrom_nul _
      · rw [devicesFrom_append hempty hname, ih hnames]
        simp [hempty]

/-- A device list is decoded whole, whatever follows its last NUL, and also where the buffer ends
there. -/
theorem getAllDevices_encode {names : List String}
    (h : ∀ name ∈ names, name ≠ "" ∧ nul ∉ name.toList) :
    (∀ beyond, getAllDevices (some (encode names ++ beyond)) = some names) ∧
      getAllDevices none = some [] := by
  refine ⟨fun beyond => ?_, rfl⟩
  have hkeep : names.takeWhile (fun name => name ≠ "") = names :=
    List.takeWhile_eq_self_iff.mpr fun name hname => by simpa using (h name hname).1
  rw [getAllDevices_encode_eq fun name hname => (h name hname).2]
  exact congrArg some hkeep

theorem getAllDevices_encode_two :
    (∀ beyond, getAllDevices (some (encode ["OpenAL Soft", "Generic Hardware"] ++ beyond)) =
        some ["OpenAL Soft", "Generic Hardware"]) ∧ getAllDevices none = some [] :=
  getAllDevices_encode (by decide)

end OpenALRenderer.CharBuffer
