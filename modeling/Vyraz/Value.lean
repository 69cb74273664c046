import Vyraz.Binary64.Shortest

namespace Vyraz

/--
A value of the language. The derived `==` is the equality of the language: values of different
kinds differ, and numbers compare as IEEE 754 says, so a NaN differs from itself.
-/
inductive Value where
  | nil
  | bool (b : Bool)
  | number (x : Float)
  | string (s : String)
deriving BEq

namespace Value

def truthy : Value → Bool
  | nil => false
  | bool b => b
  | number _ => true
  | string _ => true

def text : Value → String
  | nil => "ніщо"
  | bool true => "істина"
  | bool false => "хиба"
  | number x => Binary64.text x
  | string s => s

end Value
end Vyraz
