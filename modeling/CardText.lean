import CardText.Card.Database
import CardText.Card.Reading
import CardText.Card.Record
import CardText.Catalogue
import CardText.Json.Reader
import CardText.Json.Writer
import CardText.Proofs.Cost
import CardText.Proofs.Ability.Accounting
import CardText.Proofs.Ability.Sound
import CardText.Proofs.Effect.Grant
import CardText.Proofs.Effect.Reading
import CardText.Proofs.Catalogue
import CardText.Proofs.Ability.Complete
import CardText.Proofs.Ability.Reference
import CardText.Proofs.Effect.Strict
import CardText.Proofs.Ability.Identity
import CardText.Proofs.Ability.Strict
import CardText.Proofs.Card.Reminder
import CardText.Proofs.Card.Source
import CardText.Proofs.Catalogue.Lookup
import CardText.Proofs.Keyword.Line
import CardText.Proofs.Effect.Sequence
import CardText.Proofs.Ability.Compound
import CardText.Proofs.Ability.Name
import CardText.Proofs.Ability.Activated
import CardText.Proofs.Ability.Report
import CardText.Proofs.Database
import CardText.Proofs.Effect.Condition
import CardText.Proofs.Trigger.Guard
import CardText.Proofs.Effect.Elliptical
import CardText.Proofs.Effect.Prohibition
import CardText.Proofs.Effect.Sharing
import CardText.Proofs.Effect.Multiplier
import CardText.Proofs.Effect.Choice
import CardText.Proofs.Cost.Agreement
import CardText.Proofs.Cost.Quote
import CardText.Proofs.Number
import CardText.Proofs.Selector.Printed
import CardText.Proofs.Card.Dash
import CardText.Proofs.Ability.HintName
import CardText.Proofs.Keyword.Hint
import CardText.Proofs.Cost.Pieces
import CardText.Proofs.Text.Variant
import CardText.Proofs.Text.Outside
import CardText.Proofs.Text.Conservation
import CardText.Proofs.Effect.Conjunction
import CardText.Proofs.Card.Wrapping
import CardText.Proofs.Card.Collection
import CardText.Proofs.Number.Range
import CardText.Proofs.Effect.Front
import CardText.Proofs.Selector.Compound
import CardText.Proofs.Selector.Restriction
