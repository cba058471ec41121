import TypedId.Diagnostic

/-!
What messages say.

`Cause.Says` spells out the message for each cause that names a fragment of a text, with the fragment in
it; `Uuid.Worded` does so for the reasons why a text is no identifier. Both follow the wording that is
shown to users, and that every message is worded so is proved of all causes and reasons.
-/

namespace TypedId

/-- The words for what is wrong with a text. -/
inductive Uuid.Worded : Uuid.Reason → String → Prop where
  | length (found : Nat) : Worded (.length found) ("invalid length: found " ++ toString found)
  | character (found : Char) (index : Nat) :
      Worded (.character found index)
        ("invalid character: found `" ++ toString found ++ "` at " ++ toString index)
  | groupCount (found : Nat) :
      Worded (.groupCount found) ("invalid group count: expected 5, found " ++ toString found)
  | groupLength (group expected found : Nat) :
      Worded (.groupLength group expected found)
        ("invalid group length in group " ++ toString group ++ ": expected " ++ toString expected ++
          ", found " ++ toString found)

/-- Every reason is worded by its message. -/
theorem Uuid.worded_message (reason : Uuid.Reason) : Uuid.Worded reason reason.message := by
  cases reason with
  | length found => exact .length found
  | character found index => exact .character found index
  | groupCount found => exact .groupCount found
  | groupLength group expected found => exact .groupLength group expected found

/-- Whether a message says what a cause names: the unknown name or the name without a value, the
keyword, the name that is reserved and the module, or the text and why it is no identifier. -/
def Cause.Says (message : String) : Cause → Prop
  | .arguments (.unknown name) =>
    message = "invalid `#[entity_id]` arguments: " ++ ("unknown argument `" ++ name ++ "`") ++
      "; expected `#[entity_id]`, `#[entity_id(<bool>)]` or `#[entity_id(sqlx = <bool>)]`"
  | .arguments (.valueRequired name) =>
    message = "invalid `#[entity_id]` arguments: " ++ ("`" ++ name ++ "` requires a value") ++
      "; expected `#[entity_id]`, `#[entity_id(<bool>)]` or `#[entity_id(sqlx = <bool>)]`"
  | .unsafeModule =>
    message = "`#[entity_id]` can only be applied to a named module with an inline body" ++
      " (`unsafe mod` is not supported)"
  | .outOfLine =>
    message = "`#[entity_id]` can only be applied to a named module with an inline body" ++
      " (out-of-line modules cannot be expanded)"
  | .reserved name moduleName =>
    message = "`#[entity_id]` can only be applied to a named module with an inline body" ++
      (" (`" ++ name ++ "` is generated by the macro and cannot be declared in `" ++ moduleName ++ "`)")
  | .invalidText text reason =>
    message = "invalid id literal `" ++ text ++ "`: " ++ reason.message ++
      "; expected a UUID such as " ++ "`67e55044-10b1-426f-9247-bb680e5fe0c8`"
  | _ => True

/-- Every message says what its cause names. -/
theorem Cause.says_message (cause : Cause) : cause.Says cause.message := by
  cases cause with
  | arguments fault =>
      cases fault with
      | unknown | valueRequired => rfl
      | missingValue | noLiteral | noTruthValue | several => trivial
  | unsafeModule | outOfLine | reserved | invalidText => rfl
  | noModule | grammar | noText | unexpected => trivial

end TypedId
