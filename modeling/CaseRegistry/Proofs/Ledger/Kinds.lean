import CaseRegistry.Ledger.Kind
import Mathlib.Logic.Function.Defs

/-! Which texts are which kinds of operations.

A text has a method if it begins with the namespace and a point (`methodOf?_eq_some_iff`), and a
method is that of a kind or of none. So a text is the print of a kind, unknown within the namespace
or foreign, and it is classified as what it is (`classify_exactly`). -/
namespace CaseRegistry.OperationKind

/-- The text begins with the namespace and a point. -/
def InNamespace (text : String) : Prop := ∃ method, text = namespaceName ++ "." ++ method

variable {text : String}

/-! ### Methods -/

section
variable {front : List Char} (noPoint : '.' ∉ front) (behind : List Char)
include noPoint

theorem no_point {c : Char} (mem : c ∈ front) : decide (c ≠ '.') = true :=
  decide_eq_true fun point => noPoint (point ▸ mem)

theorem takeWhile_point : (front ++ '.' :: behind).takeWhile (· ≠ '.') = front := by
  rw [List.takeWhile_append_of_pos fun _ => no_point noPoint]
  simp

theorem dropWhile_point : (front ++ '.' :: behind).dropWhile (· ≠ '.') = '.' :: behind := by
  rw [List.dropWhile_append_of_pos fun _ => no_point noPoint]
  simp

end

theorem point_not_mem_namespaceName : '.' ∉ namespaceName.toList := by decide

/-- The first point ends the namespace; further points belong to the method. -/
theorem methodOf?_eq_some_iff {text method : List Char} :
    methodOf? text = some method ↔ text = namespaceName.toList ++ '.' :: method := by
  unfold methodOf?
  constructor
  · intro found
    split at found
    case isTrue front =>
      split at found
      case h_1 c behind back =>
        obtain rfl := Option.some.inj found
        have stops := List.head?_dropWhile_not (fun c => decide (c ≠ '.')) text
        have point : c = '.' := by
          rw [back] at stops
          simpa using stops
        rw [← List.takeWhile_append_dropWhile (p := fun c => decide (c ≠ '.')) (l := text), front, back,
          point]
      case h_2 => cases found
    case isFalse => cases found
  · rintro rfl
    rw [takeWhile_point point_not_mem_namespaceName, dropWhile_point point_not_mem_namespaceName,
      if_pos rfl]

theorem methodOf?_toList (method : String) :
    methodOf? (namespaceName ++ "." ++ method).toList = some method.toList :=
  methodOf?_eq_some_iff.mpr (by simp)

theorem methodOf?_of_outside (outside : ¬InNamespace text) : methodOf? text.toList = none := by
  rw [Option.eq_none_iff_forall_ne_some]
  intro method found
  refine outside ⟨String.ofList method, String.toList_inj.mp ?_⟩
  simp [methodOf?_eq_some_iff.mp found]

/-- A kind is found by its method. -/
theorem find?_method (kind : OperationKind) :
    all.find? (·.method.toList = kind.method.toList) = some kind := by
  cases kind <;> decide

theorem method_injective : Function.Injective method := by
  intro a b same
  have found := find?_method a
  rw [same, find?_method b] at found
  exact (Option.some.inj found).symm

/-- No method has a point in it. -/
theorem point_not_mem_method (kind : OperationKind) : '.' ∉ kind.method.toList := by
  cases kind <;> decide

theorem toString_eq_iff {kind : OperationKind} {method : String} :
    namespaceName ++ "." ++ method = kind.toString ↔ method = kind.method := by
  simp [toString, ← String.toList_inj]

/-- What stands before the first point has to be the namespace, letter by letter. -/
theorem eq_namespaceName {space behind : String} (noPoint : '.' ∉ space.toList)
    (inside : InNamespace (space ++ "." ++ behind)) : space = namespaceName := by
  obtain ⟨method, same⟩ := inside
  have fronts := congrArg (fun text : String => text.toList.takeWhile (· ≠ '.')) same
  simp only [String.toList_append, List.append_assoc] at fronts
  exact String.toList_inj.mp ((takeWhile_point noPoint behind.toList).symm.trans
    (fronts.trans (takeWhile_point point_not_mem_namespaceName method.toList)))

/-! ### Classification -/

theorem classify_toString (kind : OperationKind) : classify kind.toString = .ok (some kind) := by
  unfold classify
  rw [toString, methodOf?_toList]
  simp only [find?_method]

/-- What is within the namespace and not the print of a kind. -/
theorem classify_of_unknown (inside : InNamespace text)
    (unknown : ∀ kind : OperationKind, text ≠ kind.toString) :
    classify text = .error (.unexpectedOperation text) := by
  obtain ⟨method, rfl⟩ := inside
  have none : all.find? (·.method.toList = method.toList) = none := by
    refine List.find?_eq_none.mpr fun kind _ same => unknown kind ?_
    have same : kind.method = method := String.toList_inj.mp (by simpa using same)
    rw [toString, same]
  unfold classify
  simp only [methodOf?_toList, none]

theorem classify_of_outside (outside : ¬InNamespace text) : classify text = .ok none := by
  unfold classify
  rw [methodOf?_of_outside outside]

theorem print_or_unknown_or_outside (text : String) :
    (∃ kind : OperationKind, text = kind.toString) ∨
      (InNamespace text ∧ ∀ kind : OperationKind, text ≠ kind.toString) ∨ ¬InNamespace text := by
  by_cases known : ∃ kind : OperationKind, text = kind.toString
  · exact .inl known
  · by_cases inside : InNamespace text
    · exact .inr (.inl ⟨inside, not_exists.mp known⟩)
    · exact .inr (.inr inside)

theorem classify_eq_some_iff {kind : OperationKind} :
    classify text = .ok (some kind) ↔ text = kind.toString := by
  refine ⟨fun read => ?_, fun print => print ▸ classify_toString kind⟩
  rcases print_or_unknown_or_outside text with ⟨other, rfl⟩ | ⟨inside, unknown⟩ | outside
  · rw [classify_toString] at read
    cases read
    rfl
  · rw [classify_of_unknown inside unknown] at read
    cases read
  · rw [classify_of_outside outside] at read
    cases read

theorem classify_eq_error_iff {e : Error} :
    classify text = .error e ↔
      e = .unexpectedOperation text ∧ InNamespace text ∧ ∀ kind : OperationKind, text ≠ kind.toString := by
  refine ⟨fun read => ?_, fun ⟨told, inside, unknown⟩ => told ▸ classify_of_unknown inside unknown⟩
  rcases print_or_unknown_or_outside text with ⟨other, rfl⟩ | ⟨inside, unknown⟩ | outside
  · rw [classify_toString] at read
    cases read
  · rw [classify_of_unknown inside unknown] at read
    cases read
    exact ⟨rfl, inside, unknown⟩
  · rw [classify_of_outside outside] at read
    cases read

theorem classify_eq_none_iff : classify text = .ok none ↔ ¬InNamespace text := by
  refine ⟨fun read inside => ?_, classify_of_outside⟩
  rcases print_or_unknown_or_outside text with ⟨other, rfl⟩ | ⟨_, unknown⟩ | outside
  · rw [classify_toString] at read
    cases read
  · rw [classify_of_unknown inside unknown] at read
    cases read
  · exact outside inside

/-- Nothing at all is no method, and neither is what has a point in it. -/
theorem ne_toString {method : String} (odd : method = "" ∨ '.' ∈ method.toList) (kind : OperationKind) :
    namespaceName ++ "." ++ method ≠ kind.toString := by
  have nonempty : ∀ kind : OperationKind, kind.method ≠ "" := fun kind => by cases kind <;> decide
  intro print
  obtain rfl := toString_eq_iff.mp print
  exact odd.elim (nonempty kind) (point_not_mem_method kind)

/-- No two kinds have the same print. A text is classified as a kind exactly if it is the print of
this kind, as unexpected exactly if it begins with the namespace and a point and is no print, and as
foreign otherwise. Unexpected is the namespace with its point alone or with more points behind it;
foreign is what has no point, or anything but the namespace, letter by letter, before its first. -/
theorem classify_exactly :
    Function.Injective toString ∧
      (∀ text,
        (∀ kind, classify text = .ok (some kind) ↔ text = kind.toString) ∧
        (∀ e, classify text = .error e ↔
          e = .unexpectedOperation text ∧ InNamespace text ∧ ∀ kind : OperationKind, text ≠ kind.toString) ∧
        (classify text = .ok none ↔ ¬InNamespace text)) ∧
      (∀ method : String, method = "" ∨ '.' ∈ method.toList →
        classify ("loc." ++ method) = .error (.unexpectedOperation ("loc." ++ method))) ∧
      (∀ text : String, '.' ∉ text.toList → classify text = .ok none) ∧
      ∀ space behind : String, space ≠ "loc" → '.' ∉ space.toList →
        classify (space ++ "." ++ behind) = .ok none := by
  refine ⟨fun a b same => method_injective (toString_eq_iff.mp same),
    fun text => ⟨fun kind => classify_eq_some_iff, fun e => classify_eq_error_iff, classify_eq_none_iff⟩,
    fun method odd => classify_of_unknown ⟨method, rfl⟩ (ne_toString odd), ?_, ?_⟩
  · rintro text noPoint
    refine classify_of_outside fun ⟨method, inside⟩ => noPoint ?_
    simp [inside]
  · intro space behind other noPoint
    exact classify_of_outside fun inside => other (eq_namespaceName noPoint inside)

/-- The namespace in capitals is another one. -/
example : classify "LOC.close" = .ok none := by rfl

end CaseRegistry.OperationKind
