namespace GraphqlReference

/-- What a floating button shows, and what it says when pointed at. -/
structure ButtonText where
  label : String
  caption : String
  deriving DecidableEq, Repr

/-- The texts of the floating buttons. -/
structure NavigationTexts where
  top : ButtonText
  query : ButtonText
  mutation : ButtonText
  subscription : ButtonText
  deriving DecidableEq, Repr

def NavigationTexts.default : NavigationTexts where
  top := ⟨"\u2191", "Go to top"⟩
  query := ⟨"Q", "Query root type"⟩
  mutation := ⟨"M", "Mutation root type"⟩
  subscription := ⟨"S", "Subscription root type"⟩

/-- A standalone document is a complete page with a title and stylesheets. -/
structure Config where
  title : String
  standalone : Bool
  stylesheets : List String
  includeBuiltIns : Bool
  navigation : NavigationTexts
  deriving DecidableEq, Repr

def Config.default : Config where
  title := "GraphQL Schema"
  standalone := true
  stylesheets := []
  includeBuiltIns := false
  navigation := .default

end GraphqlReference
