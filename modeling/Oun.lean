import Oun.Library.Transition
import Oun.Library.Pool
import Oun.Library.Collection
import Oun.Library.UpToIds
import Oun.Library.Regex
import Oun.Library.Numeral
import Oun.Library.RegExp.Parser
import Oun.Library.RegExp.Literal
import Oun.Library.Future
import Oun.Library.Simulation
import Oun.Library.Coupling
import Oun.Abstract.Market
import Oun.Model.Store
import Oun.Model.Handlers
import Oun.Model.Sessions
import Oun.Model.Operations
import Oun.Model.Lists
import Oun.Model.Entrance
import Oun.Model.Whole
import Oun.Model.Submissions
import Oun.Model.Profile
import Oun.Model.Homes
import Oun.Model.Details
import Oun.Model.Controller
import Oun.Model.Search
import Oun.Verification.Sessions.Effects
import Oun.Verification.Sessions.Questions
import Oun.Verification.Sessions.Accounting
import Oun.Verification.Sessions.Once
import Oun.Verification.Sessions.Screens
import Oun.Verification.Winner.Choices
import Oun.Verification.Winner.Single
import Oun.Verification.Winner.Agreement
import Oun.Verification.Roles.Provenance
import Oun.Verification.Roles.Preservation
import Oun.Verification.Roles.References
import Oun.Verification.Roles.Authority
import Oun.Verification.Roles.Acting
import Oun.Verification.Offers.OnePerProvider
import Oun.Verification.Offers.Ledger
import Oun.Verification.Offers.Verdicts
import Oun.Verification.Offers.Balance
import Oun.Verification.Offers.Told
import Oun.Verification.Offers.Prices
import Oun.Verification.Winner.Outcome
import Oun.Verification.Rating.Registered
import Oun.Verification.Rating.Mean
import Oun.Verification.Rating.Lag
import Oun.Verification.Rating.Once
import Oun.Verification.Reports.Once
import Oun.Verification.Market.Representation
import Oun.Verification.Market.Moves
import Oun.Verification.Market.Refinement
import Oun.Verification.Tasks.Writes
import Oun.Verification.Tasks.Drained
import Oun.Verification.Tasks.Progress
import Oun.Verification.Tasks.Independence
import Oun.Verification.Tasks.Failures
import Oun.Verification.Tasks.AcceptAlone
import Oun.Verification.Notifications.Badge
import Oun.Verification.Entrance.Attempts
import Oun.Verification.Entrance.Numbers
import Oun.Verification.Entrance.Mobile
import Oun.Verification.Entrance.Complete
import Oun.Verification.Entrance.Credentials
import Oun.Verification.Entrance.Validated
import Oun.Verification.Entrance.Identity
import Oun.Verification.Whole.Agreement
import Oun.Verification.Whole.Members
import Oun.Verification.Submissions.Announced
import Oun.Verification.Profile.Sources
import Oun.Verification.Profile.Isolation
import Oun.Verification.Profile.Edits
import Oun.Verification.Whole.Shown
import Oun.Verification.Details.Provider
import Oun.Verification.Details.Contact
import Oun.Verification.Details.Disclosed
import Oun.Verification.Market.Answers
import Oun.Verification.Market.Visits
import Oun.Verification.Market.Played
import Oun.Verification.Whole.Arrival
import Oun.Verification.Whole.Exact
import Oun.Verification.Whole.Plays
import Oun.Verification.Profile.Formats
import Oun.Verification.Cart.Distinct
import Oun.Verification.Cart.Quantities
import Oun.Verification.Cart.Entries
import Oun.Verification.Lists.Entries
import Oun.Verification.Lists.Pages
import Oun.Verification.Search.Words
