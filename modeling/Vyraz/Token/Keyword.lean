namespace Vyraz

inductive Keyword where
  | conjunction
  | alternative
  | falsehood
  | forLoop
  | function
  | condition
  | nothing
  | disjunction
  | output
  | result
  | truth
  | binding
  | whileLoop
deriving DecidableEq, Repr

namespace Keyword

def all : List Keyword :=
  [conjunction, alternative, falsehood, forLoop, function, condition, nothing, disjunction, output,
    result, truth, binding, whileLoop]

theorem mem_all (k : Keyword) : k ∈ all := by
  cases k <;> decide

def letters : Keyword → List Char
  | conjunction => ['і']
  | alternative => ['і', 'н', 'а', 'к', 'ш', 'е']
  | falsehood => ['х', 'и', 'б', 'а']
  | forLoop => ['д', 'л', 'я']
  | function => ['ф', 'у', 'н', 'к', 'ц', 'і', 'я']
  | condition => ['я', 'к', 'щ', 'о']
  | nothing => ['н', 'і', 'щ', 'о']
  | disjunction => ['а', 'б', 'о']
  | output => ['в', 'и', 'в', 'е', 'с', 'т', 'и']
  | result => ['п', 'о', 'в', 'е', 'р', 'н', 'у', 'т', 'и']
  | truth => ['і', 'с', 'т', 'и', 'н', 'а']
  | binding => ['з', 'м', 'і', 'н', 'н', 'а']
  | whileLoop => ['п', 'о', 'к', 'и']

def text (k : Keyword) : String :=
  String.ofList k.letters

def name : Keyword → String
  | conjunction => "AND"
  | alternative => "ELSE"
  | falsehood => "FALSE"
  | forLoop => "FOR"
  | function => "FUN"
  | condition => "IF"
  | nothing => "NIL"
  | disjunction => "OR"
  | output => "PRINT"
  | result => "RETURN"
  | truth => "TRUE"
  | binding => "VAR"
  | whileLoop => "WHILE"

def ofLetters? (word : List Char) : Option Keyword :=
  all.find? fun k => k.letters = word

theorem ofLetters?_letters (k : Keyword) : ofLetters? k.letters = some k := by
  cases k <;> decide

theorem letters_of_ofLetters? {word : List Char} {k : Keyword} (h : ofLetters? word = some k) :
    k.letters = word := by
  simpa using List.find?_some h

end Keyword
end Vyraz
